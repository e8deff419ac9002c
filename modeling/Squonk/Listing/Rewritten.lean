import Squonk.Listing.Basic

/-!
# Reading what was written

A reader looks at the token behind what it takes. Two rests that start alike are one to it, so what
it takes can be moved in front of another rest, and other tokens can be written for it: those that
it reads for the same, or for what stands for it, in front of every rest that starts alike.
-/

namespace listing.Reader

variable {τ ε α β : Type}

section
variable (alike : Option τ → Option τ → Prop)

/-- In front of `rest`, and of every rest that starts alike, `m` takes `used` for `a`, and `m'`
takes `new` for `a'`. The tokens start alike in either case. -/
structure Rewrites (m m' : Reader τ ε α) (ts : List τ) (a a' : α) (rest used new : List τ) :
    Prop where
  split : ts = used ++ rest
  front : ∀ rest', alike rest.head? rest'.head? →
    alike ts.head? (used ++ rest').head? ∧ alike ts.head? (new ++ rest').head?
  source : ∀ rest', alike rest.head? rest'.head? → m (used ++ rest') = .ok (a, rest')
  written : ∀ rest', alike rest.head? rest'.head? → m' (new ++ rest') = .ok (a', rest')

/-- A test of the first token does not tell tokens that start alike. -/
def Respects (test : τ → Bool) : Prop :=
  ∀ x y, alike x y → x.any test = y.any test

end

variable {alike : Option τ → Option τ → Prop} {m m' : Reader τ ε α}
  {k k' : α → Reader τ ε β} {ts mid rest used new used' new' : List τ} {a a' : α} {b b' : β}
  {t c : τ} {test : τ → Bool}

theorem accept_eq_true {ts rest : List τ}
    (h : (accept test : Reader τ ε Bool) ts = .ok (true, rest)) :
    ∃ t, ts = t :: rest ∧ test t = true := by
  cases ts with
  | nil => simp at h
  | cons t ts =>
    rw [accept_cons] at h
    obtain ⟨htest, hrest⟩ := Prod.mk.inj (Except.ok.inj h)
    rw [if_pos htest] at hrest
    exact ⟨t, by rw [hrest], htest⟩

theorem accept_eq_false {ts rest : List τ}
    (h : (accept test : Reader τ ε Bool) ts = .ok (false, rest)) :
    ts.head?.any test = false ∧ ts = rest := by
  cases ts with
  | nil =>
    rw [accept_nil] at h
    exact ⟨rfl, (Prod.mk.inj (Except.ok.inj h)).2⟩
  | cons t ts =>
    rw [accept_cons] at h
    obtain ⟨htest, hrest⟩ := Prod.mk.inj (Except.ok.inj h)
    rw [htest] at hrest
    exact ⟨htest, hrest⟩

theorem accept_apply_false {ts : List τ} (h : ts.head?.any test = false) :
    (accept test : Reader τ ε Bool) ts = .ok (false, ts) := by
  cases ts with
  | nil => exact accept_nil test
  | cons t ts =>
    have ht : test t = false := h
    rw [accept_cons, ht]
    rfl

theorem many_stop {item : Reader τ ε (Option α)} (h : item ts = .ok (none, rest)) :
    many item ts = .ok ([], rest) := by
  rw [many, bind_apply, look_apply, bind_ok, turns, bind_apply, h]
  rfl

namespace Rewrites

theorem pure (a a' : α) :
    Rewrites alike (pure a : Reader τ ε α) (Pure.pure a') ts a a' ts [] [] where
  split := rfl
  front _ h := ⟨h, h⟩
  source _ _ := rfl
  written _ _ := rfl

theorem bind (hm : Rewrites alike m m' ts a a' mid used new)
    (hk : Rewrites alike (k a) (k' a') mid b b' rest used' new') :
    Rewrites alike (m >>= k) (m' >>= k') ts b b' rest (used ++ used') (new ++ new') where
  split := by rw [hm.split, hk.split, List.append_assoc]
  front := by
    intro rest' h
    obtain ⟨hsource, hwritten⟩ := hk.front rest' h
    rw [List.append_assoc, List.append_assoc]
    exact ⟨(hm.front _ hsource).1, (hm.front _ hwritten).2⟩
  source := by
    intro rest' h
    rw [List.append_assoc, bind_apply, hm.source _ (hk.front rest' h).1, bind_ok]
    exact hk.source rest' h
  written := by
    intro rest' h
    rw [List.append_assoc, bind_apply, hm.written _ (hk.front rest' h).2, bind_ok]
    exact hk.written rest' h

/-- What comes last takes no token. -/
theorem bind_last (hm : Rewrites alike m m' ts a a' rest used new)
    (hk : Rewrites alike (k a) (k' a') rest b b' rest [] []) :
    Rewrites alike (m >>= k) (m' >>= k') ts b b' rest used new := by
  have h := hm.bind hk
  rw [List.append_nil, List.append_nil] at h
  exact h

theorem bind_pure (hm : Rewrites alike m m' ts a a' rest used new) (f : α → β) :
    Rewrites alike (do return f (← m)) (do return f (← m')) ts (f a) (f a') rest used new :=
  hm.bind_last (.pure (f a) (f a'))

theorem token {means : τ → Option α} {error : ε} (ha : means t = some a)
    (ha' : means c = some a') (hsource : alike (some t) (some t))
    (hwritten : alike (some t) (some c)) :
    Rewrites alike (token means error) (token means error) (t :: rest) a a' rest [t] [c] where
  split := rfl
  front _ _ := ⟨hsource, hwritten⟩
  source rest' _ := by simp [token_apply, ha]
  written rest' _ := by simp [token_apply, ha']

theorem accept_true (ht : test t = true) (hc : test c = true)
    (hsource : alike (some t) (some t)) (hwritten : alike (some t) (some c)) :
    Rewrites alike (accept test : Reader τ ε Bool) (accept test) (t :: rest) true true rest
      [t] [c] where
  split := rfl
  front _ _ := ⟨hsource, hwritten⟩
  source rest' _ := by simp [ht]
  written rest' _ := by simp [hc]

theorem accept_false (htest : Respects alike test) (h : rest.head?.any test = false) :
    Rewrites alike (accept test : Reader τ ε Bool) (accept test) rest false false rest [] [] where
  split := rfl
  front _ h := ⟨h, h⟩
  source _ halike := accept_apply_false ((htest _ _ halike).symm.trans h)
  written _ halike := accept_apply_false ((htest _ _ halike).symm.trans h)

/-- A test in front of tokens that start alike comes out the same. -/
theorem look {f : Bool → Reader τ ε β} {f' : Bool → Reader τ ε β}
    (htest : Respects alike test)
    (h : Rewrites alike (f (ts.head?.any test)) (f' (ts.head?.any test)) ts b b' rest used new) :
    Rewrites alike (look (fun ts => ts.head?.any test) >>= f)
      (look (fun ts => ts.head?.any test) >>= f') ts b b' rest used new where
  split := h.split
  front := h.front
  source := by
    intro rest' halike
    rw [bind_apply, look_apply, bind_ok, ← htest _ _ (h.front rest' halike).1]
    exact h.source rest' halike
  written := by
    intro rest' halike
    rw [bind_apply, look_apply, bind_ok, ← htest _ _ (h.front rest' halike).2]
    exact h.written rest' halike

end Rewrites

/-! ## Lists -/

variable {item : Reader τ ε (Option α)} {f : α → α} {write : α → List τ} {good : α → Prop}

/-- Every item can be written for what `f` makes of it, where it is `good`, and the end of the items
is seen in front of tokens that start alike. -/
structure WritesItem (alike : Option τ → Option τ → Prop) (item : Reader τ ε (Option α))
    (f : α → α) (good : α → Prop) (write : α → List τ) : Prop where
  shrinks : Shrinks item
  turn : ∀ ts a rest, item ts = .ok (some a, rest) → ∃ used new,
    Rewrites alike item item ts (some a) (some (f a)) rest used new ∧ (good a → new = write a)
  stop : ∀ ts rest, item ts = .ok (none, rest) →
    Rewrites alike item item ts none none rest [] []

theorem WritesItem.lists (hitem : WritesItem alike item f good write) {as : List α}
    (h : Lists item ts as rest) :
    ∃ used new, ts = used ++ rest ∧
      (∀ rest', alike rest.head? rest'.head? →
        alike ts.head? (used ++ rest').head? ∧ alike ts.head? (new ++ rest').head? ∧
        Lists item (used ++ rest') as rest' ∧ Lists item (new ++ rest') (as.map f) rest') ∧
      ((∀ a ∈ as, good a) → new = as.flatMap write) := by
  induction h with
  | stop hstop =>
    have hnone := hitem.stop _ _ hstop
    refine ⟨[], [], hnone.split, ?_, fun _ => rfl⟩
    intro rest' h
    exact ⟨(hnone.front rest' h).1, (hnone.front rest' h).2, .stop (hnone.source rest' h),
      .stop (hnone.written rest' h)⟩
  | turn hturn _ ih =>
    obtain ⟨used, new, hone, hgood⟩ := hitem.turn _ _ _ hturn
    obtain ⟨used', new', hsplit, hrest, hgood'⟩ := ih
    refine ⟨used ++ used', new ++ new', by rw [hone.split, hsplit, List.append_assoc], ?_, ?_⟩
    · intro rest' h
      obtain ⟨hsource, hwritten, hlists, hlists'⟩ := hrest rest' h
      rw [List.append_assoc, List.append_assoc]
      exact ⟨(hone.front _ hsource).1, (hone.front _ hwritten).2,
        .turn (hone.source _ hsource) hlists, .turn (hone.written _ hwritten) hlists'⟩
    · intro hall
      rw [hgood (hall _ List.mem_cons_self),
        hgood' fun a ha => hall a (List.mem_cons_of_mem _ ha)]
      rfl

theorem WritesItem.many (hitem : WritesItem alike item f good write) {as : List α}
    (h : many item ts = .ok (as, rest)) :
    ∃ used new, Rewrites alike (many item) (many item) ts as (as.map f) rest used new ∧
      ((∀ a ∈ as, good a) → new = as.flatMap write) := by
  obtain ⟨used, new, hsplit, hrest, hgood⟩ := hitem.lists ((many_eq_ok hitem.shrinks).mp h)
  refine ⟨used, new, ⟨hsplit, ?_, ?_, ?_⟩, hgood⟩
  · intro rest' halike
    obtain ⟨hsource, hwritten, -, -⟩ := hrest rest' halike
    exact ⟨hsource, hwritten⟩
  · intro rest' halike
    exact (many_eq_ok hitem.shrinks).mpr (hrest rest' halike).2.2.1
  · intro rest' halike
    exact (many_eq_ok hitem.shrinks).mpr (hrest rest' halike).2.2.2

/-! ## Lists that are written -/

section
variable {turn : Reader τ ε (Option β)} {goes : List τ → Prop} {write : α → List τ} {f : α → β}

/-- Every item of a list was read. -/
theorem turns_mem {n : Nat} {bs : List β} (h : turns turn n ts = .ok (bs, rest)) :
    ∀ b ∈ bs, ∃ ts rest, turn ts = .ok (some b, rest) := by
  induction n generalizing ts bs with
  | zero =>
    cases h
    intro b hb
    cases hb
  | succ n ih =>
    obtain ⟨⟨found, mid⟩, hturn, h⟩ := bind_eq_ok.mp h
    cases found with
    | none =>
      cases h
      intro b hb
      cases hb
    | some head =>
      obtain ⟨⟨tail, behind⟩, htail, heq⟩ := bind_eq_ok.mp h
      cases heq
      intro b hb
      obtain rfl | hmem := List.mem_cons.mp hb
      · exact ⟨ts, mid, hturn⟩
      · exact ih htail b hmem

theorem many_mem {bs : List β} (h : many turn ts = .ok (bs, rest)) :
    ∀ b ∈ bs, ∃ ts rest, turn ts = .ok (some b, rest) := by
  rw [many, bind_apply, look_apply, bind_ok] at h
  exact turns_mem h

/-- `goes` says what may stand behind an item: another one, or what ends the list. -/
theorem turns_written {as : List α} {n : Nat} (hgoes : ∀ a ∈ as, ∀ ts, goes (write a ++ ts))
    (hturn : ∀ a ∈ as, ∀ rest, goes rest → turn (write a ++ rest) = .ok (some (f a), rest))
    (hrest : goes rest) (hstop : turn rest = .ok (none, rest)) (hn : as.length < n) :
    turns turn n (as.flatMap write ++ rest) = .ok (as.map f, rest) := by
  induction as generalizing n with
  | nil =>
    obtain ⟨n, rfl⟩ := Nat.exists_eq_succ_of_ne_zero (Nat.ne_zero_of_lt hn)
    rw [List.flatMap_nil, List.nil_append, turns, bind_apply, hstop]
    rfl
  | cons a as ih =>
    obtain ⟨n, rfl⟩ := Nat.exists_eq_succ_of_ne_zero (Nat.ne_zero_of_lt hn)
    have hbehind : goes (as.flatMap write ++ rest) := by
      cases as with
      | nil => exact hrest
      | cons b as =>
        rw [List.flatMap_cons, List.append_assoc]
        exact hgoes b (List.mem_cons_of_mem a List.mem_cons_self) _
    have hone := hturn a List.mem_cons_self _ hbehind
    have hlt : as.length < n := by
      rw [List.length_cons] at hn
      omega
    have htail := ih (fun b hb => hgoes b (List.mem_cons_of_mem a hb))
      (fun b hb => hturn b (List.mem_cons_of_mem a hb)) hlt
    rw [List.flatMap_cons, List.append_assoc, turns, bind_apply, hone, bind_ok]
    dsimp only
    rw [bind_apply, htail]
    rfl

theorem length_le_flatMap {as : List α} (hne : ∀ a ∈ as, write a ≠ []) :
    as.length ≤ (as.flatMap write).length := by
  induction as with
  | nil => exact Nat.le_refl 0
  | cons a as ih =>
    have hone := List.length_pos_iff.mpr (hne a List.mem_cons_self)
    have hrest := ih fun b hb => hne b (List.mem_cons_of_mem a hb)
    rw [List.flatMap_cons, List.length_append, List.length_cons]
    omega

theorem many_written {as : List α} (hne : ∀ a ∈ as, write a ≠ [])
    (hgoes : ∀ a ∈ as, ∀ ts, goes (write a ++ ts))
    (hturn : ∀ a ∈ as, ∀ rest, goes rest → turn (write a ++ rest) = .ok (some (f a), rest))
    (hrest : goes rest) (hstop : turn rest = .ok (none, rest)) :
    many turn (as.flatMap write ++ rest) = .ok (as.map f, rest) := by
  have hlength : as.length < (as.flatMap write ++ rest).length + 1 := by
    have hitems := length_le_flatMap hne
    rw [List.length_append]
    omega
  rw [many, bind_apply, look_apply, bind_ok]
  exact turns_written hgoes hturn hrest hstop hlength

/-- Where a list is read again from what is written for it, so is each item of it. `reads` says
which items are. -/
theorem turns_back {reads : α → Prop} {as : List α} {n : Nat} {behind : List τ}
    (hgoes : ∀ a ∈ as, ∀ ts, goes (write a ++ ts))
    (hturn : ∀ a ∈ as, reads a → ∀ rest, goes rest →
      turn (write a ++ rest) = .ok (some (f a), rest))
    (hback : ∀ a ∈ as, ∀ rest behind, goes rest →
      turn (write a ++ rest) = .ok (some (f a), behind) → reads a)
    (hrest : goes rest) (h : turns turn n (as.flatMap write ++ rest) = .ok (as.map f, behind)) :
    ∀ a ∈ as, reads a := by
  induction as generalizing n with
  | nil =>
    intro a ha
    cases ha
  | cons a as ih =>
    have hbehind : goes (as.flatMap write ++ rest) := by
      cases as with
      | nil => exact hrest
      | cons b as =>
        rw [List.flatMap_cons, List.append_assoc]
        exact hgoes b (List.mem_cons_of_mem a List.mem_cons_self) _
    cases n with
    | zero => cases h
    | succ n =>
      rw [List.flatMap_cons, List.append_assoc, turns] at h
      obtain ⟨⟨found, mid⟩, hone, h⟩ := bind_eq_ok.mp h
      cases found with
      | none => cases h
      | some head =>
        obtain ⟨⟨tail, last⟩, htail, heq⟩ := bind_eq_ok.mp h
        cases heq
        have hreads := hback a List.mem_cons_self _ mid hbehind hone
        have hmid := (hturn a List.mem_cons_self hreads _ hbehind).symm.trans hone
        cases hmid
        have hall := ih (fun b hb => hgoes b (List.mem_cons_of_mem a hb))
          (fun b hb => hturn b (List.mem_cons_of_mem a hb))
          (fun b hb => hback b (List.mem_cons_of_mem a hb)) htail
        intro b hb
        obtain rfl | hmem := List.mem_cons.mp hb
        · exact hreads
        · exact hall b hmem

end

end listing.Reader
