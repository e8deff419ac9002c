import Squonk.Format.Doc

/-!
# Layouts of documents

What a document may be printed as: each group flat on one line or broken, with the indents of the
enclosing nests. The layouter's text is such a layout, in which a flat group stays on a line that
is not too wide.
-/

namespace squonk.format

/-- What a flat group is printed as. -/
inductive Piece
  | text (s : List Char)
  | space

/-- What a document is printed as. A break is hard if the document demands it. -/
inductive Item
  | text (s : List Char)
  | newline (hard : Bool) (indent : Nat)
  | flat (pieces : List Piece)

mutual

/-- The pieces of a document that is printed flat, if it has no forced break. -/
def Doc.flat : Doc → Option (List Piece)
  | .Nil => some []
  | .Text s => some [.text s]
  | .Line => some [.space]
  | .SoftLine => some []
  | .HardLine => none
  | .Concat parts => flats parts
  | .Nest _ inner => inner.flat
  | .Group inner => inner.flat

def flats : List Doc → Option (List Piece)
  | [] => some []
  | doc :: docs => doc.flat.bind fun front => (flats docs).map (front ++ ·)

end

/-- The layouts of some documents in a row, each at its indent. -/
inductive Lays : List (Nat × Doc) → List Item → Prop
  | done : Lays [] []
  | nil {i docs t} (h : Lays docs t) : Lays ((i, .Nil) :: docs) t
  | text {i s docs t} (h : Lays docs t) : Lays ((i, .Text s) :: docs) (.text s :: t)
  | line {i docs t} (h : Lays docs t) : Lays ((i, .Line) :: docs) (.newline false i :: t)
  | soft_line {i docs t} (h : Lays docs t) : Lays ((i, .SoftLine) :: docs) (.newline false i :: t)
  | hard_line {i docs t} (h : Lays docs t) : Lays ((i, .HardLine) :: docs) (.newline true i :: t)
  | concat {i parts docs t} (h : Lays (parts.map (Prod.mk i) ++ docs) t) :
    Lays ((i, .Concat parts) :: docs) t
  | nest {i w inner docs t} (h : Lays ((i + w, inner) :: docs) t) :
    Lays ((i, .Nest w inner) :: docs) t
  | flat {i inner pieces docs t} (hflat : inner.flat = some pieces) (h : Lays docs t) :
    Lays ((i, .Group inner) :: docs) (.flat pieces :: t)
  | broken {i inner docs t} (h : Lays ((i, inner) :: docs) t) : Lays ((i, .Group inner) :: docs) t

/-! ## Printing -/

def Piece.chars : Piece → List Char
  | .text s => s
  | .space => [' ']

def pieces_text (pieces : List Piece) : List Char := pieces.flatMap Piece.chars

/-- Print one item behind some text. -/
def print_item (out : List Char) : Item → List Char
  | .text s => out ++ s
  | .newline _ indent => new_line out indent
  | .flat pieces => out ++ pieces_text pieces

def print (out : List Char) (trace : List Item) : List Char := trace.foldl print_item out

def column_behind (pos : Nat) : Item → Nat
  | .text s => pos + text_width s
  | .newline _ indent => indent
  | .flat pieces => pos + text_width (pieces_text pieces)

/-- The column behind some items. -/
def column (pos : Nat) (trace : List Item) : Nat := trace.foldl column_behind pos

/-- The width of the items in front of the next break. -/
def line_width : List Item → Nat
  | [] => 0
  | .text s :: trace => text_width s + line_width trace
  | .newline _ _ :: _ => 0
  | .flat pieces :: trace => text_width (pieces_text pieces) + line_width trace

/-! ## Measuring -/

theorem fits_loop_append (fuel : Nat) (remaining : Int) (pending rest : List Cmd) :
    fits_loop fuel remaining pending rest = fits_loop fuel remaining [] (pending ++ rest) := by
  induction fuel generalizing remaining pending rest with
  | zero => rfl
  | succ fuel ih =>
    cases pending with
    | nil => rfl
    | cons cmd pending =>
      simp only [List.cons_append, fits_loop, pop]
      cases hstep : fits_step remaining cmd with
      | inl verdict => rfl
      | inr next =>
        simp only
        rw [ih, ih _ (next.2 ++ []), List.append_nil, List.append_assoc]

/-- A turn of the loop. -/
theorem fits_loop_cons (fuel : Nat) (remaining : Int) (cmd : Cmd) (rest : List Cmd) :
    fits_loop (fuel + 1) remaining [] (cmd :: rest) =
      if remaining < 0 then false
      else
        match fits_step remaining cmd with
        | .inl verdict => verdict
        | .inr (remaining, cmds) => fits_loop fuel remaining [] (cmds ++ rest) := by
  simp only [fits_loop, pop]
  cases hstep : fits_step remaining cmd with
  | inl verdict => rfl
  | inr next =>
    simp only
    rw [fits_loop_append, List.append_nil]

theorem nonneg_of_fits {fuel : Nat} {remaining : Int} {pending rest : List Cmd}
    (h : fits_loop fuel remaining pending rest = true) : 0 ≤ remaining := by
  cases fuel with
  | zero => cases h
  | succ fuel =>
    by_contra hneg
    rw [fits_loop, if_pos (by omega)] at h
    cases h

/-- What a turn of the loop leaves to be measured. -/
theorem fits_turn {n fuel : Nat} {remaining remaining' : Int} {cmd : Cmd} {cmds rest : List Cmd}
    (h : fits_loop n remaining [] (cmd :: rest) = true)
    (hstep : fits_step remaining cmd = .inr (remaining', cmds)) (hn : n = fuel + 1) :
    fits_loop fuel remaining' [] (cmds ++ rest) = true := by
  have hneg := nonneg_of_fits h
  subst hn
  rwa [fits_loop_cons, if_neg (by omega), hstep] at h

@[simp] theorem stack_weight_cons (cmd : Cmd) (cmds : List Cmd) :
    stack_weight (cmd :: cmds) = cmd.doc.weight + stack_weight cmds := rfl

theorem weights_append (docs docs' : List Doc) :
    weights (docs ++ docs') = weights docs + weights docs' := by
  induction docs with
  | nil => simp [weights]
  | cons doc docs ih => simp [weights, ih, Nat.add_assoc]

theorem stack_weight_parts (i : Nat) (mode : Mode) (parts : List Doc) (cmds : List Cmd) :
    stack_weight ((parts.map fun part => ⟨i, mode, part⟩) ++ cmds) =
      weights parts + stack_weight cmds := by
  simp [stack_weight, weights_append, Function.comp_def]

theorem text_width_append (s s' : List Char) : text_width (s ++ s') = text_width s + text_width s' :=
  List.length_append

theorem pieces_text_append (pieces pieces' : List Piece) :
    pieces_text (pieces ++ pieces') = pieces_text pieces ++ pieces_text pieces' :=
  List.flatMap_append

/-- A turn takes one off the weight of the commands. -/
theorem fits_step_weight {remaining remaining' : Int} {cmd : Cmd} {cmds : List Cmd}
    (h : fits_step remaining cmd = .inr (remaining', cmds)) (rest : List Cmd) :
    stack_weight (cmds ++ rest) + 1 = stack_weight (cmd :: rest) := by
  obtain ⟨i, mode, doc⟩ := cmd
  cases doc with
  | Concat parts =>
    obtain ⟨-, rfl⟩ := Prod.mk.inj (Sum.inr.inj h)
    rw [stack_weight_parts, stack_weight_cons, Doc.weight, Nat.add_right_comm]
  | Nest w inner =>
    obtain ⟨-, rfl⟩ := Prod.mk.inj (Sum.inr.inj h)
    exact Nat.add_right_comm _ _ _
  | Group inner =>
    obtain ⟨-, rfl⟩ := Prod.mk.inj (Sum.inr.inj h)
    exact Nat.add_right_comm _ _ _
  | Nil =>
    obtain ⟨-, rfl⟩ := Prod.mk.inj (Sum.inr.inj h)
    exact Nat.add_comm _ _
  | Text s =>
    obtain ⟨-, rfl⟩ := Prod.mk.inj (Sum.inr.inj h)
    exact Nat.add_comm _ _
  | Line =>
    cases mode with
    | Break => cases h
    | Flat =>
      obtain ⟨-, rfl⟩ := Prod.mk.inj (Sum.inr.inj h)
      exact Nat.add_comm _ _
  | SoftLine =>
    cases mode with
    | Break => cases h
    | Flat =>
      obtain ⟨-, rfl⟩ := Prod.mk.inj (Sum.inr.inj h)
      exact Nat.add_comm _ _
  | HardLine => cases mode <;> cases h

/-- The loop ends of itself within the weight of its commands. -/
theorem fits_loop_ends (fuel : Nat) (remaining : Int) (cmds : List Cmd)
    (h : stack_weight cmds < fuel) :
    fits_loop (fuel + 1) remaining [] cmds = fits_loop fuel remaining [] cmds := by
  induction fuel generalizing remaining cmds with
  | zero => cases h
  | succ fuel ih =>
    cases cmds with
    | nil => rfl
    | cons cmd rest =>
      rw [fits_loop_cons, fits_loop_cons]
      cases hstep : fits_step remaining cmd with
      | inl verdict => rfl
      | inr next =>
        have hweight := fits_step_weight hstep rest
        simp only
        rw [ih next.1 (next.2 ++ rest) (by omega)]

mutual

/-- Measuring a flat document takes off its width, and a forced break does not fit. -/
theorem fits_flat (doc : Doc) {fuel i : Nat} {remaining : Int} {rest : List Cmd}
    (h : fits_loop (doc.weight + fuel) remaining [] (⟨i, .Flat, doc⟩ :: rest) = true) :
    ∃ pieces, doc.flat = some pieces ∧
      fits_loop fuel (remaining - text_width (pieces_text pieces)) [] rest = true := by
  cases doc with
  | Nil =>
    have hrest := fits_turn h rfl (Nat.add_comm 1 fuel)
    exact ⟨[], rfl, by simpa [pieces_text, text_width] using hrest⟩
  | Text s =>
    have hrest := fits_turn h rfl (Nat.add_comm 1 fuel)
    exact ⟨[.text s], rfl, by simpa [pieces_text, Piece.chars] using hrest⟩
  | Line =>
    have hrest := fits_turn h rfl (Nat.add_comm 1 fuel)
    exact ⟨[.space], rfl, by simpa [pieces_text, Piece.chars, text_width] using hrest⟩
  | SoftLine =>
    have hrest := fits_turn h rfl (Nat.add_comm 1 fuel)
    exact ⟨[], rfl, by simpa [pieces_text, text_width] using hrest⟩
  | HardLine =>
    rw [Doc.weight, Nat.add_comm, fits_loop_cons] at h
    split at h <;> cases h
  | Concat parts =>
    rw [Doc.weight, Nat.add_right_comm] at h
    exact fits_flats parts (fits_turn h rfl rfl)
  | Nest w inner =>
    rw [Doc.weight, Nat.add_right_comm] at h
    exact fits_flat inner (fits_turn h rfl rfl)
  | Group inner =>
    rw [Doc.weight, Nat.add_right_comm] at h
    exact fits_flat inner (fits_turn h rfl rfl)

theorem fits_flats (docs : List Doc) {fuel i : Nat} {remaining : Int} {rest : List Cmd}
    (h : fits_loop (weights docs + fuel) remaining []
      ((docs.map fun doc => ⟨i, .Flat, doc⟩) ++ rest) = true) :
    ∃ pieces, flats docs = some pieces ∧
      fits_loop fuel (remaining - text_width (pieces_text pieces)) [] rest = true := by
  cases docs with
  | nil =>
    rw [weights, Nat.zero_add] at h
    exact ⟨[], rfl, by simpa [pieces_text, text_width] using h⟩
  | cons doc docs =>
    rw [weights, Nat.add_assoc] at h
    obtain ⟨front, hfront, hrest⟩ := fits_flat doc h
    obtain ⟨pieces, hpieces, hfits⟩ := fits_flats docs hrest
    refine ⟨front ++ pieces, by rw [flats, hfront, hpieces]; rfl, ?_⟩
    rwa [pieces_text_append, text_width_append, Int.natCast_add, ← Int.sub_sub]

end

/-- However the groups in it are printed, what fits is not too wide up to the next break. -/
theorem line_width_le_of_fits {docs : List (Nat × Doc)} {trace : List Item} (h : Lays docs trace)
    {fuel : Nat} {remaining : Int} {cmds : List Cmd}
    (hdocs : cmds.map (fun cmd => (cmd.indent, cmd.doc)) = docs)
    (hfits : fits_loop (stack_weight cmds + fuel) remaining [] cmds = true) :
    line_width trace ≤ remaining := by
  induction h generalizing fuel remaining cmds with
  | done => exact nonneg_of_fits hfits
  | line => exact nonneg_of_fits hfits
  | soft_line => exact nonneg_of_fits hfits
  | hard_line => exact nonneg_of_fits hfits
  | nil h ih =>
    obtain ⟨⟨i', mode, doc⟩, rest, rfl, hcmd, hrest⟩ := List.map_eq_cons_iff.mp hdocs
    obtain ⟨rfl, rfl⟩ := Prod.mk.inj hcmd
    have hturn : fits_loop (stack_weight rest + fuel) remaining [] ([] ++ rest) = true :=
      fits_turn hfits rfl (by simp [Doc.weight]; omega)
    exact ih hrest hturn
  | @text i s docs trace h ih =>
    obtain ⟨⟨i', mode, doc⟩, rest, rfl, hcmd, hrest⟩ := List.map_eq_cons_iff.mp hdocs
    obtain ⟨rfl, rfl⟩ := Prod.mk.inj hcmd
    have hturn : fits_loop (stack_weight rest + fuel) (remaining - text_width s) [] ([] ++ rest) =
        true := fits_turn hfits rfl (by simp [Doc.weight]; omega)
    have hle := ih hrest hturn
    rw [line_width, Int.natCast_add]
    omega
  | @concat i parts docs trace h ih =>
    obtain ⟨⟨i', mode, doc⟩, rest, rfl, hcmd, hrest⟩ := List.map_eq_cons_iff.mp hdocs
    obtain ⟨rfl, rfl⟩ := Prod.mk.inj hcmd
    refine @ih fuel _ _ ?_ (fits_turn hfits rfl ?_)
    · simp [hrest, Function.comp_def]
    · simp [Doc.weight, stack_weight_parts]
      omega
  | nest h ih =>
    obtain ⟨⟨i', mode, doc⟩, rest, rfl, hcmd, hrest⟩ := List.map_eq_cons_iff.mp hdocs
    obtain ⟨rfl, rfl⟩ := Prod.mk.inj hcmd
    refine @ih fuel _ _ ?_ (fits_turn hfits rfl ?_)
    · simp [hrest]
    · simp [Doc.weight]
      omega
  | @flat i inner pieces docs trace hflat h ih =>
    obtain ⟨⟨i', mode, doc⟩, rest, rfl, hcmd, hrest⟩ := List.map_eq_cons_iff.mp hdocs
    obtain ⟨rfl, rfl⟩ := Prod.mk.inj hcmd
    have hinner : fits_loop (inner.weight + (stack_weight rest + fuel)) remaining []
        ([⟨i', .Flat, inner⟩] ++ rest) = true := fits_turn hfits rfl (by simp [Doc.weight]; omega)
    obtain ⟨pieces', hpieces, hbehind⟩ := fits_flat inner hinner
    obtain rfl := Option.some.inj (hflat.symm.trans hpieces)
    have hle := ih hrest hbehind
    rw [line_width, Int.natCast_add]
    omega
  | broken h ih =>
    obtain ⟨⟨i', mode, doc⟩, rest, rfl, hcmd, hrest⟩ := List.map_eq_cons_iff.mp hdocs
    obtain ⟨rfl, rfl⟩ := Prod.mk.inj hcmd
    refine @ih fuel _ _ ?_ (fits_turn hfits rfl ?_)
    · simp [hrest]
    · simp [Doc.weight]
      omega

/-! ## Running -/

theorem run_add (width n m : Nat) (self : Layouter) :
    run width (n + m) self = run width m (run width n self) := by
  induction n generalizing self with
  | zero => rw [Nat.zero_add, run]
  | succ n ih => rw [Nat.add_right_comm, run, ih, run]

mutual

/-- A flat document is printed as its pieces. -/
theorem run_flat (doc : Doc) {pieces : List Piece} (h : doc.flat = some pieces) (width n i : Nat)
    (out : List Char) (pos : Nat) (stack : List Cmd) :
    run width (doc.weight + n) ⟨out, pos, ⟨i, .Flat, doc⟩ :: stack⟩ =
      run width n ⟨out ++ pieces_text pieces, pos + text_width (pieces_text pieces), stack⟩ := by
  cases doc with
  | Nil =>
    obtain rfl := Option.some.inj h
    rw [Doc.weight, Nat.add_comm, run, pieces_text, List.flatMap_nil, List.append_nil]
    rfl
  | Text s =>
    obtain rfl := Option.some.inj h
    rw [Doc.weight, Nat.add_comm, run, pieces_text, List.flatMap_singleton]
    rfl
  | Line =>
    obtain rfl := Option.some.inj h
    rw [Doc.weight, Nat.add_comm, run, pieces_text, List.flatMap_singleton]
    rfl
  | SoftLine =>
    obtain rfl := Option.some.inj h
    rw [Doc.weight, Nat.add_comm, run, pieces_text, List.flatMap_nil, List.append_nil]
    rfl
  | HardLine => cases h
  | Concat parts =>
    rw [Doc.weight, Nat.add_right_comm, run]
    exact run_flats parts h width n i out pos stack
  | Nest w inner =>
    rw [Doc.weight, Nat.add_right_comm, run]
    exact run_flat inner h width n (i + w) out pos stack
  | Group inner =>
    rw [Doc.weight, Nat.add_right_comm, run]
    exact run_flat inner h width n i out pos stack

theorem run_flats (docs : List Doc) {pieces : List Piece} (h : flats docs = some pieces)
    (width n i : Nat) (out : List Char) (pos : Nat) (stack : List Cmd) :
    run width (weights docs + n) ⟨out, pos, (docs.map fun doc => ⟨i, .Flat, doc⟩) ++ stack⟩ =
      run width n ⟨out ++ pieces_text pieces, pos + text_width (pieces_text pieces), stack⟩ := by
  cases docs with
  | nil =>
    obtain rfl := Option.some.inj h
    rw [weights, Nat.zero_add, pieces_text, List.flatMap_nil, List.append_nil]
    rfl
  | cons doc docs =>
    obtain ⟨front, hfront, hdocs⟩ := Option.bind_eq_some_iff.mp h
    obtain ⟨behind, hbehind, rfl⟩ := Option.map_eq_some_iff.mp hdocs
    have hdoc := run_flat doc hfront width (weights docs + n) i out pos
      ((docs.map fun doc => ⟨i, .Flat, doc⟩) ++ stack)
    have hrest := run_flats docs hbehind width n i (out ++ pieces_text front)
      (pos + text_width (pieces_text front)) stack
    rw [weights, Nat.add_assoc, List.map_cons, List.cons_append, hdoc, hrest, pieces_text_append,
      text_width_append, List.append_assoc, Nat.add_assoc]

end

/-- Each flat group stays on a line that is not too wide. -/
def Within (width : Nat) : Nat → List Item → Prop
  | _, [] => True
  | pos, item :: trace =>
    (∀ pieces, item = .flat pieces →
      pos + text_width (pieces_text pieces) + line_width trace ≤ width) ∧
    Within width (column_behind pos item) trace

/-- The commands of some documents that are not printed flat. -/
def breaks (docs : List (Nat × Doc)) : List Cmd := docs.map fun doc => ⟨doc.1, .Break, doc.2⟩

theorem breaks_parts (i : Nat) (parts : List Doc) (docs : List (Nat × Doc)) :
    breaks (parts.map (Prod.mk i) ++ docs) =
      (parts.map fun part => ⟨i, .Break, part⟩) ++ breaks docs := by
  simp [breaks, Function.comp_def]

theorem breaks_docs (docs : List (Nat × Doc)) :
    (breaks docs).map (fun cmd => (cmd.indent, cmd.doc)) = docs := by
  rw [breaks, List.map_map]
  exact List.map_id docs

theorem as_isize_le (n : Nat) : as_isize n ≤ n := by
  unfold as_isize
  rw [Int.bmod_def]
  split <;> omega

theorem weight_pos (doc : Doc) : 0 < doc.weight := by
  cases doc <;> simp [Doc.weight]

theorem step_group (width i : Nat) (inner : Doc) (out : List Char) (pos : Nat) (stack : List Cmd) :
    step width ⟨out, pos, ⟨i, .Break, .Group inner⟩ :: stack⟩ =
      ⟨out, pos, ⟨i, if fits (as_isize width - pos) i inner stack then .Flat else .Break, inner⟩ ::
        stack⟩ := by
  simp only [step]
  cases fits (as_isize width - pos) i inner stack <;> rfl

/-- The loop ends with an empty stack, and what it has printed is a layout of the documents. -/
theorem run_breaks (width n : Nat) (docs : List (Nat × Doc)) (hn : stack_weight (breaks docs) = n)
    (out : List Char) (pos : Nat) : ∃ trace, Lays docs trace ∧ Within width pos trace ∧
      run width n ⟨out, pos, breaks docs⟩ = ⟨print out trace, column pos trace, []⟩ := by
  -- each turn takes one command off the weight of the stack, a flat group all of its own at once
  induction n using Nat.strong_induction_on generalizing docs out pos with
  | _ n ih =>
    rcases docs with _ | ⟨⟨i, doc⟩, docs⟩
    · obtain rfl : 0 = n := hn
      exact ⟨[], .done, trivial, rfl⟩
    have hweight : doc.weight + stack_weight (breaks docs) = n := hn
    obtain ⟨m, rfl⟩ : ∃ m, n = m + 1 := Nat.exists_eq_add_one.mpr (by
      have hpos := weight_pos doc
      omega)
    have hitem : ∀ item, (∀ pieces, item ≠ .flat pieces) → stack_weight (breaks docs) = m →
        ∃ trace, Lays docs trace ∧ Within width pos (item :: trace) ∧
          run width m ⟨print_item out item, column_behind pos item, breaks docs⟩ =
            ⟨print out (item :: trace), column pos (item :: trace), []⟩ := by
      intro item hitem hm
      obtain ⟨trace, hlays, hwithin, hrun⟩ := ih m (Nat.lt_succ_self m) docs hm
        (print_item out item) (column_behind pos item)
      exact ⟨trace, hlays, ⟨fun pieces heq => absurd heq (hitem pieces), hwithin⟩, hrun⟩
    rw [Nat.add_comm] at hweight
    cases doc with
    | Nil =>
      obtain ⟨trace, hlays, hwithin, hrun⟩ :=
        ih m (Nat.lt_succ_self m) docs (Nat.succ.inj hweight) out pos
      exact ⟨trace, .nil hlays, hwithin, hrun⟩
    | Text s =>
      obtain ⟨trace, hlays, hwithin, hrun⟩ :=
        hitem (.text s) (fun _ => Item.noConfusion) (Nat.succ.inj hweight)
      exact ⟨_, .text hlays, hwithin, hrun⟩
    | Line =>
      obtain ⟨trace, hlays, hwithin, hrun⟩ :=
        hitem (.newline false i) (fun _ => Item.noConfusion) (Nat.succ.inj hweight)
      exact ⟨_, .line hlays, hwithin, hrun⟩
    | SoftLine =>
      obtain ⟨trace, hlays, hwithin, hrun⟩ :=
        hitem (.newline false i) (fun _ => Item.noConfusion) (Nat.succ.inj hweight)
      exact ⟨_, .soft_line hlays, hwithin, hrun⟩
    | HardLine =>
      obtain ⟨trace, hlays, hwithin, hrun⟩ :=
        hitem (.newline true i) (fun _ => Item.noConfusion) (Nat.succ.inj hweight)
      exact ⟨_, .hard_line hlays, hwithin, hrun⟩
    | Concat parts =>
      have hparts : stack_weight (breaks (parts.map (Prod.mk i) ++ docs)) = m := by
        rw [breaks_parts, stack_weight_parts, Nat.add_comm]
        exact Nat.succ.inj hweight
      obtain ⟨trace, hlays, hwithin, hrun⟩ :=
        ih m (Nat.lt_succ_self m) (parts.map (Prod.mk i) ++ docs) hparts out pos
      rw [breaks_parts] at hrun
      exact ⟨trace, .concat hlays, hwithin, hrun⟩
    | Nest w inner =>
      have hinner : stack_weight (breaks ((i + w, inner) :: docs)) = m := by
        rw [breaks, List.map_cons, stack_weight_cons, Nat.add_comm]
        exact Nat.succ.inj hweight
      obtain ⟨trace, hlays, hwithin, hrun⟩ :=
        ih m (Nat.lt_succ_self m) ((i + w, inner) :: docs) hinner out pos
      exact ⟨trace, .nest hlays, hwithin, hrun⟩
    | Group inner =>
      have hm : inner.weight + stack_weight (breaks docs) = m := by
        rw [Nat.add_comm]
        exact Nat.succ.inj hweight
      have hstep := step_group width i inner out pos (breaks docs)
      cases hfits : fits (as_isize width - pos) i inner (breaks docs) with
      | false =>
        obtain ⟨trace, hlays, hwithin, hrun⟩ :=
          ih m (Nat.lt_succ_self m) ((i, inner) :: docs) hm out pos
        rw [hfits, if_neg Bool.false_ne_true] at hstep
        refine ⟨trace, .broken hlays, hwithin, ?_⟩
        rw [run, breaks, List.map_cons, ← breaks, hstep]
        exact hrun
      | true =>
        rw [hfits, if_pos rfl] at hstep
        rw [fits, fits_loop_append, Nat.add_assoc] at hfits
        obtain ⟨pieces, hpieces, hbehind⟩ := fits_flat inner hfits
        have hlt : stack_weight (breaks docs) < m + 1 := by omega
        obtain ⟨trace, hlays, hwithin, hrun⟩ := ih _ hlt docs rfl (out ++ pieces_text pieces)
          (pos + text_width (pieces_text pieces))
        have hline := line_width_le_of_fits hlays (breaks_docs docs) hbehind
        have hwidth := as_isize_le width
        refine ⟨.flat pieces :: trace, .flat hpieces hlays, ⟨?_, hwithin⟩, ?_⟩
        · intro pieces' heq
          obtain rfl := Item.flat.inj heq
          omega
        · rw [run, breaks, List.map_cons, ← breaks, hstep, ← hm, run_flat inner hpieces]
          exact hrun

/-! ## What is printed -/

/-- The characters of white space. -/
def is_whitespace (c : Char) : Bool :=
  let n := c.toNat
  (9 ≤ n && n ≤ 13) || n == 0x20 || n == 0x85 || n == 0xA0 || n == 0x1680 ||
    (0x2000 ≤ n && n ≤ 0x200A) || n == 0x2028 || n == 0x2029 || n == 0x202F || n == 0x205F ||
    n == 0x3000

/-- A text without its white space. -/
def strip (s : List Char) : List Char := s.filter fun c => !is_whitespace c

mutual

/-- The pieces of text of a document, in order. -/
def Doc.texts : Doc → List Char
  | .Text s => s
  | .Nil | .Line | .SoftLine | .HardLine => []
  | .Concat parts => texts_of parts
  | .Nest _ inner => inner.texts
  | .Group inner => inner.texts

def texts_of : List Doc → List Char
  | [] => []
  | doc :: docs => doc.texts ++ texts_of docs

end

mutual

/-- The sums of the enclosing nests at the forced breaks of a document, in order. -/
def Doc.hard_lines (indent : Nat) : Doc → List Nat
  | .HardLine => [indent]
  | .Nil | .Text _ | .Line | .SoftLine => []
  | .Concat parts => hard_lines_of indent parts
  | .Nest width inner => inner.hard_lines (indent + width)
  | .Group inner => inner.hard_lines indent

def hard_lines_of (indent : Nat) : List Doc → List Nat
  | [] => []
  | doc :: docs => doc.hard_lines indent ++ hard_lines_of indent docs

end

/-- The indent behind a forced break. -/
def Item.hard? : Item → Option Nat
  | .newline true indent => some indent
  | _ => none

theorem strip_append (s s' : List Char) : strip (s ++ s') = strip s ++ strip s' :=
  List.filter_append ..

theorem strip_new_line (out : List Char) (indent : Nat) : strip (new_line out indent) = strip out := by
  have htrim : strip (out.rdropWhile (· == ' ')) = strip out := by
    induction out using List.reverseRecOn with
    | nil => rfl
    | append_singleton out c ih =>
      rw [List.rdropWhile_concat]
      split
      · rename_i hblank
        rw [ih, strip_append, beq_iff_eq.mp hblank]
        exact (List.append_nil _).symm
      · rfl
  have hindent : strip ('\n' :: List.replicate indent ' ') = [] := by
    simp [strip, is_whitespace]
  rw [new_line, strip_append, htrim, hindent, List.append_nil]

mutual

/-- A flat document prints its text, and it has no forced break. -/
theorem flat_texts (doc : Doc) {pieces : List Piece} (h : doc.flat = some pieces) (i : Nat) :
    strip (pieces_text pieces) = strip doc.texts ∧ doc.hard_lines i = [] := by
  cases doc with
  | Nil =>
    obtain rfl := Option.some.inj h
    exact ⟨rfl, rfl⟩
  | Text s =>
    obtain rfl := Option.some.inj h
    rw [pieces_text, List.flatMap_singleton]
    exact ⟨rfl, rfl⟩
  | Line =>
    obtain rfl := Option.some.inj h
    exact ⟨rfl, rfl⟩
  | SoftLine =>
    obtain rfl := Option.some.inj h
    exact ⟨rfl, rfl⟩
  | HardLine => cases h
  | Concat parts => exact flats_texts parts h i
  | Nest w inner => exact flat_texts inner h (i + w)
  | Group inner => exact flat_texts inner h i

theorem flats_texts (docs : List Doc) {pieces : List Piece} (h : flats docs = some pieces) (i : Nat) :
    strip (pieces_text pieces) = strip (texts_of docs) ∧ hard_lines_of i docs = [] := by
  cases docs with
  | nil =>
    obtain rfl := Option.some.inj h
    exact ⟨rfl, rfl⟩
  | cons doc docs =>
    obtain ⟨front, hfront, hdocs⟩ := Option.bind_eq_some_iff.mp h
    obtain ⟨behind, hbehind, rfl⟩ := Option.map_eq_some_iff.mp hdocs
    obtain ⟨htext, hhard⟩ := flat_texts doc hfront i
    obtain ⟨htexts, hhards⟩ := flats_texts docs hbehind i
    rw [pieces_text_append, strip_append, texts_of, strip_append, htext, htexts, hard_lines_of, hhard,
      hhards]
    exact ⟨rfl, rfl⟩

end

theorem texts_of_eq (docs : List Doc) : texts_of docs = docs.flatMap Doc.texts := by
  induction docs with
  | nil => rfl
  | cons doc docs ih => rw [texts_of, ih, List.flatMap_cons]

theorem hard_lines_of_eq (i : Nat) (docs : List Doc) :
    hard_lines_of i docs = docs.flatMap (Doc.hard_lines i) := by
  induction docs with
  | nil => rfl
  | cons doc docs ih => rw [hard_lines_of, ih, List.flatMap_cons]

/-- Every layout of some documents has their text, apart from white space. -/
theorem strip_print {docs : List (Nat × Doc)} {trace : List Item} (h : Lays docs trace)
    (out : List Char) :
    strip (print out trace) = strip out ++ strip (docs.flatMap fun doc => doc.2.texts) := by
  induction h generalizing out with
  | done => exact (List.append_nil _).symm
  | nil h ih => exact ih out
  | @text i s docs trace h ih =>
    rw [List.flatMap_cons, strip_append, ← List.append_assoc, ← strip_append]
    exact ih (out ++ s)
  | line h ih => exact (ih _).trans (by rw [print_item, strip_new_line]; rfl)
  | soft_line h ih => exact (ih _).trans (by rw [print_item, strip_new_line]; rfl)
  | hard_line h ih => exact (ih _).trans (by rw [print_item, strip_new_line]; rfl)
  | concat h ih =>
    rw [ih, List.flatMap_append, List.flatMap_map, List.flatMap_cons, Doc.texts, texts_of_eq]
  | nest h ih => exact ih out
  | @flat i inner pieces docs trace hflat h ih =>
    obtain ⟨htext, -⟩ := flat_texts inner hflat i
    rw [List.flatMap_cons, strip_append, Doc.texts, ← htext, ← List.append_assoc, ← strip_append]
    exact ih (out ++ pieces_text pieces)
  | broken h ih => exact ih out

/-- In every layout, each forced break is followed by the sum of the enclosing nests. -/
theorem hard_print {docs : List (Nat × Doc)} {trace : List Item} (h : Lays docs trace) :
    trace.filterMap Item.hard? = docs.flatMap fun doc => doc.2.hard_lines doc.1 := by
  induction h with
  | done => rfl
  | nil h ih => exact ih
  | text h ih => exact ih
  | line h ih => exact ih
  | soft_line h ih => exact ih
  | hard_line h ih => exact congrArg _ ih
  | concat h ih =>
    rw [ih, List.flatMap_append, List.flatMap_map, List.flatMap_cons, Doc.hard_lines, hard_lines_of_eq]
  | nest h ih => exact ih
  | @flat i inner pieces docs trace hflat h ih =>
    obtain ⟨-, hhard⟩ := flat_texts inner hflat i
    rw [List.flatMap_cons, Doc.hard_lines, hhard]
    exact ih
  | broken h ih => exact ih

/-! ## Lines -/

theorem trim_behind_newline (line rest : List Char) :
    (line ++ '\n' :: rest).rdropWhile (· == ' ') = line ++ '\n' :: rest.rdropWhile (· == ' ') := by
  induction rest using List.reverseRecOn with
  | nil => exact List.rdropWhile_concat_neg _ _ _ (by decide)
  | append_singleton rest c ih =>
    rw [← List.cons_append, ← List.append_assoc, List.rdropWhile_concat, List.rdropWhile_concat, ih]
    split
    · rfl
    · simp

theorem trim_append (front : List Char) {s : List Char} (h : ∃ c ∈ s, ¬ (c == ' ') = true) :
    (front ++ s).rdropWhile (· == ' ') = front ++ s.rdropWhile (· == ' ') := by
  induction s using List.reverseRecOn with
  | nil => obtain ⟨c, hc, -⟩ := h; cases hc
  | append_singleton s d ih =>
    rw [← List.append_assoc, List.rdropWhile_concat, List.rdropWhile_concat]
    split
    · rename_i hd
      obtain ⟨c, hc, hblank⟩ := h
      rcases List.mem_append.mp hc with hc | hc
      · exact ih ⟨c, hc, hblank⟩
      · rw [List.mem_singleton.mp hc] at hblank
        exact absurd hd hblank
    · exact List.append_assoc _ _ _

/-- The text starts with the indent, or with a line of its own that has been trimmed away. -/
def Indented (indent : Nat) (text : List Char) : Prop :=
  List.replicate indent ' ' <+: text ∨ text.head? = some '\n'

theorem Indented.append {indent : Nat} {text : List Char} (h : Indented indent text)
    (s : List Char) : Indented indent (text ++ s) := by
  rcases h with hindent | hblank
  · exact Or.inl (hindent.trans (List.prefix_append _ _))
  · exact Or.inr (by rw [List.head?_append, hblank]; rfl)

/-- The indent of a line goes only with the whole line. -/
theorem Indented.new_line {indent : Nat} {text : List Char} (h : Indented indent text)
    (indent' : Nat) : Indented indent (new_line text indent') := by
  rcases h with ⟨more, rfl⟩ | hblank
  · by_cases hspaces : ∀ c ∈ List.replicate indent ' ' ++ more, (c == ' ') = true
    · refine Or.inr ?_
      rw [squonk.format.new_line, List.rdropWhile_eq_nil_iff.mpr hspaces]
      rfl
    · refine Or.inl ?_
      have htrim : (List.replicate indent ' ' ++ more).rdropWhile (· == ' ') =
          List.replicate indent ' ' ++ more.rdropWhile (· == ' ') := by
        simp only [not_forall] at hspaces
        obtain ⟨c, hc, hblank⟩ := hspaces
        refine trim_append _ ⟨c, (List.mem_append.mp hc).resolve_left fun hmem => ?_, hblank⟩
        rw [List.eq_of_mem_replicate hmem] at hblank
        exact hblank rfl
      rw [squonk.format.new_line, htrim, List.append_assoc]
      exact List.prefix_append _ _
  · obtain ⟨text, rfl⟩ := List.head?_eq_some_iff.mp hblank
    have htrim := trim_behind_newline [] text
    rw [List.nil_append, List.nil_append] at htrim
    exact Or.inr (by rw [squonk.format.new_line, htrim]; rfl)

/-- A line that is ended is not printed to again, and the next one keeps its indent. -/
theorem print_behind_newline (line : List Char) {indent : Nat} {behind : List Char}
    (h : Indented indent behind) (trace : List Item) :
    ∃ behind', print (line ++ '\n' :: behind) trace = line ++ '\n' :: behind' ∧
      Indented indent behind' := by
  induction trace generalizing behind with
  | nil => exact ⟨behind, rfl, h⟩
  | cons item trace ih =>
    have hitem : ∃ behind', print_item (line ++ '\n' :: behind) item = line ++ '\n' :: behind' ∧
        Indented indent behind' := by
      cases item with
      | text s => exact ⟨behind ++ s, by simp [print_item], h.append s⟩
      | newline hard indent' =>
        refine ⟨squonk.format.new_line behind indent', ?_, h.new_line indent'⟩
        rw [print_item, squonk.format.new_line, trim_behind_newline, List.append_assoc,
          List.cons_append]
        rfl
      | flat pieces => exact ⟨behind ++ pieces_text pieces, by simp [print_item], h.append _⟩
    obtain ⟨behind', hprint, hbehind'⟩ := hitem
    obtain ⟨behind'', hprint', hbehind''⟩ := ih hbehind'
    exact ⟨behind'', by rw [← hprint', ← hprint]; rfl, hbehind''⟩

/-- The line that is being printed. -/
def last_line (out : List Char) : List Char := out.rtakeWhile (· != '\n')

theorem length_last_line_append_le (out s : List Char) :
    (last_line (out ++ s)).length ≤ (last_line out).length + s.length := by
  induction s using List.reverseRecOn with
  | nil => simp
  | append_singleton s c ih =>
    rw [← List.append_assoc, last_line, List.rtakeWhile_concat]
    split
    · rw [List.length_append, List.length_append, List.length_singleton]
      exact Nat.succ_le_succ ih
    · exact Nat.zero_le _

theorem length_last_line_new_line (out : List Char) (indent : Nat) :
    (last_line (new_line out indent)).length ≤ indent := by
  have hbreak : last_line (out.rdropWhile (· == ' ') ++ ['\n']) = [] :=
    List.rtakeWhile_concat_neg _ _ _ (by decide)
  have hle := length_last_line_append_le (out.rdropWhile (· == ' ') ++ ['\n'])
    (List.replicate indent ' ')
  rw [hbreak, List.append_assoc, List.singleton_append, List.length_replicate] at hle
  simpa [new_line] using hle

/-- The line that is being printed is no longer than its column. -/
theorem length_last_line_le (trace : List Item) {out : List Char} {pos : Nat}
    (h : (last_line out).length ≤ pos) :
    (last_line (print out trace)).length ≤ column pos trace := by
  induction trace generalizing out pos with
  | nil => exact h
  | cons item trace ih =>
    refine ih ?_
    cases item with
    | text s => exact (length_last_line_append_le out s).trans (Nat.add_le_add_right h _)
    | newline hard indent => exact length_last_line_new_line out indent
    | flat pieces => exact (length_last_line_append_le out _).trans (Nat.add_le_add_right h _)

theorem column_append (pos : Nat) (trace trace' : List Item) :
    column pos (trace ++ trace') = column (column pos trace) trace' :=
  List.foldl_append

/-- Up to the next break, the column grows by the width of the line. -/
theorem column_le_line_width {trace : List Item} (hline : ∀ hard indent, .newline hard indent ∉ trace)
    (pos : Nat) (rest : List Item) : column pos trace ≤ pos + line_width (trace ++ rest) := by
  induction trace generalizing pos with
  | nil => exact Nat.le_add_right _ _
  | cons item trace ih =>
    have hle := ih (fun hard indent hmem => hline hard indent (List.mem_cons_of_mem _ hmem))
      (column_behind pos item)
    cases item with
    | text s => rwa [List.cons_append, line_width, ← Nat.add_assoc]
    | newline hard indent => exact absurd List.mem_cons_self (hline hard indent)
    | flat pieces => rwa [List.cons_append, line_width, ← Nat.add_assoc]

theorem Within.column_le {width pos : Nat} {before line rest : List Item} {pieces : List Piece}
    (h : Within width pos (before ++ .flat pieces :: (line ++ rest)))
    (hline : ∀ hard indent, .newline hard indent ∉ line) :
    column pos (before ++ .flat pieces :: line) ≤ width := by
  induction before generalizing pos with
  | nil => exact (column_le_line_width hline _ rest).trans (h.1 pieces rfl)
  | cons item before ih => exact ih h.2

/-! ## The laws -/

/-- The loop ends; the text is that of a layout of the document and has all its text; the line of a
    flat group is not too wide; the forced breaks have their indents; and in front of a break no
    line ends in a space, nor is the next one without its indent unless it is empty. -/
theorem layout_laws (doc : Doc) (width : Nat) :
    (run width doc.weight (start doc)).stack = [] ∧
    strip (layout doc width) = strip doc.texts ∧
    ∃ trace, Lays [(0, doc)] trace ∧ layout doc width = print [] trace ∧
      (∀ before pieces line rest, trace = before ++ .flat pieces :: (line ++ rest) →
        (∀ hard indent, .newline hard indent ∉ line) →
        (last_line (print [] (before ++ .flat pieces :: line))).length ≤ width) ∧
      trace.filterMap Item.hard? = doc.hard_lines 0 ∧
      ∀ before hard indent rest, trace = before ++ .newline hard indent :: rest →
        ∃ line behind, layout doc width = line ++ '\n' :: behind ∧
          line = (print [] before).rdropWhile (· == ' ') ∧ line.getLast? ≠ some ' ' ∧
          Indented indent behind := by
  have hweight : stack_weight (breaks [(0, doc)]) = doc.weight := Nat.add_zero _
  obtain ⟨trace, hlays, hwithin, hrun⟩ := run_breaks width doc.weight [(0, doc)] hweight [] 0
  have hlayout : layout doc width = print [] trace := congrArg Layouter.out hrun
  refine ⟨congrArg Layouter.stack hrun, ?_, trace, hlays, hlayout, ?_, ?_, ?_⟩
  · rw [hlayout, strip_print hlays, List.flatMap_singleton]
    rfl
  · rintro before pieces line rest rfl hline
    exact (length_last_line_le _ (Nat.zero_le _)).trans (hwithin.column_le hline)
  · rw [hard_print hlays, List.flatMap_singleton]
  · rintro before hard indent rest rfl
    obtain ⟨behind, hbehind, hindent⟩ := print_behind_newline
      ((print [] before).rdropWhile (· == ' ')) (Or.inl List.prefix_rfl : Indented indent _) rest
    refine ⟨(print [] before).rdropWhile (· == ' '), behind, ?_, rfl, ?_, hindent⟩
    · rw [hlayout, ← hbehind, print, List.foldl_append]
      rfl
    · intro hlast
      have hne : (print [] before).rdropWhile (· == ' ') ≠ [] := by
        intro hnil
        rw [hnil] at hlast
        cases hlast
      rw [List.getLast?_eq_some_getLast hne] at hlast
      exact List.rdropWhile_last_not _ _ hne (beq_iff_eq.mpr (Option.some.inj hlast))

/-- `a` with a line behind it, in a group. -/
def trailing_line : Doc := .Group (.Concat [.Text ['a'], .Line])

/-- The last line is not trimmed: it ends in the space of a line that is printed flat. -/
theorem layout_trailing_line : layout trailing_line 80 = ['a', ' '] ∧ trailing_line.texts = ['a'] := by
  decide

end squonk.format
