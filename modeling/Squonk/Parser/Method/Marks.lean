import Mathlib.Data.List.Pairwise
import Mathlib.Data.Nat.Basic
import Mathlib.Order.Basic
import Squonk.Dialect.Presets
import Squonk.Parser.Method.Frame
import Squonk.Parser.Method.Grammar

/-!
# The clause marks of a run

The marks are kept in a buffer beside the tree. They are those of the clauses that the run keeps,
in the order of the source, unless a branch is given up that left marks behind.
-/

open squonk.tokenizer squonk.dialect

namespace squonk.parser.method

mutual

/-- The marks of a clause that stands in the node `owner`. -/
def Clause.marks (owner : Option Nat) : Clause → List ClauseMark
  | .keyword kind offset => [⟨owner, kind, offset⟩]
  | .node id clauses => clause_marks (some id) clauses

def clause_marks (owner : Option Nat) : List Clause → List ClauseMark
  | [] => []
  | clause :: clauses => clause.marks owner ++ clause_marks owner clauses

end

mutual

/-- The nodes that own clauses. -/
def Clause.owners : Clause → List Nat
  | .keyword _ _ => []
  | .node id clauses => id :: clause_owners clauses

def clause_owners : List Clause → List Nat
  | [] => []
  | clause :: clauses => clause.owners ++ clause_owners clauses

end

/-- The index is that of the clauses: each clause keyword once, in the order of the source, and
with the node that holds the clause. -/
structure Indexed (marks : List ClauseMark) (clauses : List Clause) : Prop where
  exact : marks = clause_marks none clauses
  increasing : marks.Pairwise fun mark mark' => mark.offset < mark'.offset
  owners : (clause_owners clauses).Nodup

theorem clause_marks_append (owner : Option Nat) (first second : List Clause) :
    clause_marks owner (first ++ second) =
      clause_marks owner first ++ clause_marks owner second := by
  induction first with
  | nil => rfl
  | cons clause first ih => simp only [List.cons_append, clause_marks, ih, List.append_assoc]

theorem clause_owners_append (first second : List Clause) :
    clause_owners (first ++ second) = clause_owners first ++ clause_owners second := by
  induction first with
  | nil => rfl
  | cons clause first ih => simp only [List.cons_append, clause_owners, ih, List.append_assoc]

mutual

theorem Clause.marks_owned (id : Nat) (clause : Clause) :
    ∀ mark ∈ clause.marks (some id), mark.owner ≠ none := by
  cases clause with
  | keyword kind offset => simp [Clause.marks]
  | node id' clauses => exact clause_marks_owned id' clauses

theorem clause_marks_owned (id : Nat) (clauses : List Clause) :
    ∀ mark ∈ clause_marks (some id) clauses, mark.owner ≠ none := by
  cases clauses with
  | nil => simp [clause_marks]
  | cons clause clauses =>
    intro mark hmark
    rcases List.mem_append.mp hmark with hmark | hmark
    · exact Clause.marks_owned id clause mark hmark
    · exact clause_marks_owned id clauses mark hmark

end

theorem clause_marks_node (owner : Option Nat) (id : Nat) (clauses : List Clause) :
    clause_marks owner [.node id clauses] = clause_marks (some id) clauses := by
  simp only [clause_marks, Clause.marks, List.append_nil]

theorem ClauseMark.patch_offset (mark : ClauseMark) (owner : Nat) :
    (mark.patch owner).offset = mark.offset := by
  unfold ClauseMark.patch
  split <;> rfl

/-- A mark that is pending goes to the owner. -/
theorem map_pending_clause_marks (owner : Nat) (clauses : List Clause) :
    (clause_marks none clauses).map (·.patch owner) = clause_marks (some owner) clauses := by
  induction clauses with
  | nil => rfl
  | cons clause clauses ih =>
    simp only [clause_marks, List.map_append, ih, List.append_cancel_right_eq]
    cases clause with
    | keyword kind offset => rfl
    | node id inner =>
      rw [Clause.marks, Clause.marks]
      apply (List.map_congr_left fun mark hmark => ?_).trans (List.map_id _)
      rw [ClauseMark.patch, if_neg (clause_marks_owned id inner mark hmark)]
      rfl

theorem patch_clause_marks_append (marks : List ClauseMark) (owner : Nat)
    (clauses : List Clause) :
    patch_clause_marks (marks ++ clause_marks none clauses) marks.length owner =
      marks ++ clause_marks none [.node owner clauses] := by
  rw [patch_clause_marks, List.take_left', List.drop_left', map_pending_clause_marks,
    clause_marks_node]
  · rfl
  · rfl

/-- No branch was given up whose marks stayed. -/
def Trail.Fresh (trail : Trail) : Prop := ∀ event ∈ trail.events, event.is_stale = false

instance (trail : Trail) : Decidable trail.Fresh :=
  inferInstanceAs (Decidable (∀ event ∈ trail.events, event.is_stale = false))

theorem Trail.fresh_append {clauses first_clauses second_clauses : List Clause}
    {first second : List Event} :
    Trail.Fresh ⟨clauses, first ++ second⟩ ↔
      Trail.Fresh ⟨first_clauses, first⟩ ∧ Trail.Fresh ⟨second_clauses, second⟩ := by
  simp only [Trail.Fresh, List.mem_append, or_imp, forall_and]

/-- What a run does to the marks. -/
structure Marked (s : Parser) (error : Option ParseError) (s' : Parser) (trail : Trail) : Prop where
  framed : Framed s error s' trail
  place : s.pos ≤ s'.pos
  ids : s.next_node_id ≤ s'.next_node_id
  kept (hon : s.capture_clause_marks = true) (hfresh : trail.Fresh) :
    s'.clause_marks = s.clause_marks ++ clause_marks none trail.clauses
  counted (hon : s.capture_clause_marks = true) :
    (clause_marks none trail.clauses).length ≤ trail.events.countP Event.is_recorded
  stale (hon : s.capture_clause_marks = true) (hstale : ¬ trail.Fresh) :
    (clause_marks none trail.clauses).length < trail.events.countP Event.is_recorded
  increasing : (clause_marks none trail.clauses).Pairwise fun mark mark' =>
    mark.offset < mark'.offset
  within : ∀ mark ∈ clause_marks none trail.clauses, s.pos ≤ mark.offset ∧ mark.offset < s'.pos
  owners : (clause_owners trail.clauses).Nodup
  fresh : ∀ id ∈ clause_owners trail.clauses, s.next_node_id ≤ id ∧ id < s'.next_node_id

namespace Marked

variable {s s' s'' : Parser} {error : Option ParseError} {trail rest : Trail}

/-- A step that reads no clause. -/
theorem of_framed (framed : Framed s error s' trail) (hpos : s.pos ≤ s'.pos)
    (hids : s'.next_node_id = s.next_node_id) (hmarks : s'.clause_marks = s.clause_marks)
    (hclauses : trail.clauses = []) (hfresh : trail.Fresh) : Marked s error s' trail := by
  refine ⟨framed, hpos, hids.ge, ?_, ?_, ?_, ?_, ?_, ?_, ?_⟩
  · intro _ _
    rw [hmarks, hclauses, clause_marks, List.append_nil]
  · rw [hclauses]
    exact fun _ => Nat.zero_le _
  · intro _ hstale
    exact absurd hfresh hstale
  all_goals
    rw [hclauses]
    simp [clause_marks, clause_owners]

theorem after (first : Marked s none s' trail) (second : Marked s' error s'' rest) :
    Marked s error s'' ⟨trail.clauses ++ rest.clauses, trail.events ++ rest.events⟩ where
  framed := first.framed.after second.framed
  place := first.place.trans second.place
  ids := first.ids.trans second.ids
  kept hon hfresh := by
    obtain ⟨hfirst, hsecond⟩ := Trail.fresh_append.mp hfresh
    rw [second.kept (first.framed.capture.trans hon) hsecond, first.kept hon hfirst,
      clause_marks_append, List.append_assoc]
  counted hon := by
    have hfirst := first.counted hon
    have hsecond := second.counted (first.framed.capture.trans hon)
    simp only [clause_marks_append, List.length_append, List.countP_append]
    omega
  stale hon hstale := by
    have hon' := first.framed.capture.trans hon
    have hfirst := first.counted hon
    have hsecond := second.counted hon'
    simp only [clause_marks_append, List.length_append, List.countP_append]
    by_cases hfresh : trail.Fresh
    · have hrest := second.stale hon' fun h =>
        hstale (Trail.fresh_append.mpr ⟨hfresh, h⟩)
      omega
    · have htrail := first.stale hon hfresh
      omega
  increasing := by
    rw [clause_marks_append, List.pairwise_append]
    refine ⟨first.increasing, second.increasing, fun mark hmark mark' hmark' => ?_⟩
    exact (first.within mark hmark).2.trans_le (second.within mark' hmark').1
  within := by
    intro mark hmark
    rw [clause_marks_append] at hmark
    have hfirst := first.place
    have hsecond := second.place
    rcases List.mem_append.mp hmark with hmark | hmark
    · have hwithin := first.within mark hmark
      omega
    · have hwithin := second.within mark hmark
      omega
  owners := by
    rw [clause_owners_append, List.nodup_append]
    refine ⟨first.owners, second.owners, fun id hid id' hid' => ?_⟩
    have hfirst := first.fresh id hid
    have hsecond := second.fresh id' hid'
    omega
  fresh := by
    intro id hid
    rw [clause_owners_append] at hid
    have hfirst := first.ids
    have hsecond := second.ids
    rcases List.mem_append.mp hid with hid | hid
    · have hfresh := first.fresh id hid
      omega
    · have hfresh := second.fresh id hid
      omega

end Marked

theorem fresh_nil {clauses : List Clause} : Trail.Fresh ⟨clauses, []⟩ := by
  simp [Trail.Fresh]

theorem Parser.le_advance_pos (source : List Token) (s : Parser) :
    s.pos ≤ (s.advance source).pos := by
  unfold Parser.advance
  split
  · exact Nat.le_succ _
  · exact le_rfl

theorem Parser.advance_next_node_id (source : List Token) (s : Parser) :
    (s.advance source).next_node_id = s.next_node_id := by
  unfold Parser.advance
  split <;> rfl

theorem Parser.lt_length_of_peek {source : List Token} {s : Parser}
    (hpeek : (s.peek source).isSome) : s.pos < source.length := by
  by_contra hend
  unfold Parser.peek Parser.ahead at hpeek
  rw [List.drop_eq_nil_of_le (by omega)] at hpeek
  cases hpeek

theorem Parser.record_clause_mark_pos (kind : ClauseKw) (s : Parser) :
    (s.record_clause_mark kind).pos = s.pos := by
  unfold Parser.record_clause_mark
  split <;> rfl

theorem Parser.record_clause_mark_next_node_id (kind : ClauseKw) (s : Parser) :
    (s.record_clause_mark kind).next_node_id = s.next_node_id := by
  unfold Parser.record_clause_mark
  split <;> rfl

theorem step_marked (source : List Token) (s : Parser) : (s.step source).Sat Marked s := by
  apply Marked.of_framed (step_framed source s) (Parser.le_advance_pos source s)
    (Parser.advance_next_node_id source s) (Parser.advance_clause_marks source s) rfl
  split <;> simp [Trail.Fresh, Event.is_stale]

theorem clause_marked (source : List Token) (kind : ClauseKw) (head : Token → Bool)
    (s : Parser) : (s.clause source kind head).Sat Marked s := by
  have hframed := clause_framed source kind head s
  unfold Parser.clause at hframed ⊢
  by_cases hpeek : (s.peek source).any head
  · rw [if_pos hpeek] at hframed ⊢
    have hbound : s.pos < source.length :=
      Parser.lt_length_of_peek (Option.isSome_of_any hpeek)
    have hpos : ((s.record_clause_mark kind).advance source).pos = s.pos + 1 := by
      rw [Parser.advance, Parser.record_clause_mark_pos, if_pos hbound]
    have hids : ((s.record_clause_mark kind).advance source).next_node_id = s.next_node_id :=
      (Parser.advance_next_node_id _ _).trans (Parser.record_clause_mark_next_node_id kind s)
    exact
      { framed := hframed
        place := hpos.symm ▸ Nat.le_succ _
        ids := hids.ge
        kept := by
          intro hon _
          rw [Parser.advance_clause_marks, Parser.record_clause_mark, if_pos hon]
          rfl
        counted := by
          intro hon
          simp [clause_marks, Clause.marks, hon, Event.is_recorded]
        stale := by
          intro hon hstale
          exact absurd (by simp [Trail.Fresh, hon, Event.is_stale]) hstale
        increasing := by simp [clause_marks, Clause.marks]
        within := by
          intro mark hmark
          rw [List.mem_singleton.mp hmark, hpos]
          exact ⟨le_rfl, Nat.lt_succ_self _⟩
        owners := by simp [clause_owners, Clause.owners]
        fresh := by simp [clause_owners, Clause.owners] }
  · rw [if_neg hpeek] at hframed ⊢
    exact Marked.of_framed hframed le_rfl rfl rfl rfl fresh_nil

theorem expect_angle_gt_marked (source : List Token) (expected : String) (s : Parser) :
    (s.expect_angle_gt source expected).Sat Marked s := by
  have hframed := expect_angle_gt_framed source expected s
  have hpos := Parser.le_advance_pos source s
  have hids := Parser.advance_next_node_id source s
  have hmarks := Parser.advance_clause_marks source s
  unfold Parser.expect_angle_gt at hframed ⊢
  by_cases hpending : 0 < s.angle_gt_pending
  · rw [if_pos hpending] at hframed ⊢
    exact Marked.of_framed hframed le_rfl rfl rfl rfl (by simp [Trail.Fresh, Event.is_stale])
  · rw [if_neg hpending] at hframed ⊢
    by_cases hgt : s.peek source = some (.operator .Gt)
    · rw [if_pos hgt] at hframed ⊢
      exact Marked.of_framed hframed hpos hids hmarks rfl fresh_nil
    · rw [if_neg hgt] at hframed ⊢
      by_cases hshift : s.peek source = some (.operator .ShiftRight)
      · rw [if_pos hshift] at hframed ⊢
        exact Marked.of_framed hframed hpos hids hmarks rfl
          (by simp [Trail.Fresh, Event.is_stale])
      · rw [if_neg hshift] at hframed ⊢
        exact Marked.of_framed hframed le_rfl rfl rfl rfl fresh_nil

theorem fresh_abandon_iff {s s' : Parser} {limited : Bool} {clauses : List Clause}
    {events : List Event} :
    (abandon s s' false limited events).Fresh ↔
      Trail.Fresh ⟨clauses, events⟩ ∧ s'.clause_marks.length ≤ s.clause_marks.length := by
  constructor
  · intro hfresh
    refine ⟨fun event hevent => hfresh event ?_, ?_⟩
    · exact List.mem_append_left _ (List.mem_append_left _ hevent)
    · by_contra hmore
      apply absurd (hfresh (.stale (s'.clause_marks.length - s.clause_marks.length)))
      simp [abandon, hmore, Event.is_stale]
  · rintro ⟨hfresh, hlength⟩ event hevent
    simp only [abandon, cond_false, Bool.false_or, decide_eq_true_eq, if_pos hlength,
      List.append_nil, List.mem_append] at hevent
    rcases hevent with hevent | hlimited
    · exact hfresh event hevent
    · cases limited
      · cases hlimited
      · rw [List.mem_singleton.mp hlimited]
        rfl

theorem fresh_abandon_truncating (s s' : Parser) (limited : Bool) (events : List Event) :
    (abandon s s' true limited events).Fresh := by
  intro event hevent
  simp only [abandon, cond_true, Bool.true_or, if_true, List.append_nil, List.mem_append,
    List.mem_filter] at hevent
  rcases hevent with ⟨_, hmark⟩ | hlimited
  · cases event <;> first | rfl | cases hmark
  · cases limited
    · cases hlimited
    · rw [List.mem_singleton.mp hlimited]
      rfl

/-- Every step does to the marks what its trail says. -/
theorem marked_rule (source : List Token) (limit : Nat) : Rule source limit Marked where
  pure s := Marked.of_framed (Framed.self s) le_rfl rfl rfl rfl fresh_nil
  perform action s := by
    have hself : Marked s none s {} :=
      Marked.of_framed (Framed.self s) le_rfl rfl rfl rfl fresh_nil
    cases action with
    | look test => exact hself
    | advance => exact step_marked source s
    | mode mode => exact hself
    | clause kind head => exact clause_marked source kind head s
    | expect_angle_gt expected => exact expect_angle_gt_marked source expected s
    | unexpected expected => exact Marked.of_framed (Framed.self s) le_rfl rfl rfl rfl fresh_nil
  after first second := first.after second
  refused s _ := Marked.of_framed (Framed.self s) le_rfl rfl rfl rfl fresh_nil
  guarded room inner :=
    { inner with framed := (framed_rule source limit).guarded room inner.framed }
  set mode value {_ _ _ _} inner :=
    { inner with framed := (framed_rule source limit).set mode value inner.framed }
  rewind truncating limited {s s' _ trail} inner := by
    have hframed := (framed_rule source limit).rewind truncating limited inner.framed
    have hrecorded := hframed.recorded
    cases truncating with
    | true =>
      refine ⟨hframed, le_rfl, inner.ids, ?_, fun _ => Nat.zero_le _, ?_, .nil, ?_, .nil, ?_⟩
      · intro _ _
        rw [show clause_marks none (abandon s s' true limited trail.events).clauses = [] from rfl,
          List.append_nil]
        exact take_length_of_start inner.framed.marks
      · intro _ hstale
        exact absurd (fresh_abandon_truncating s s' limited trail.events) hstale
      · intro mark hmark
        cases hmark
      · intro id hid
        cases hid
    | false =>
      refine ⟨hframed, le_rfl, inner.ids, ?_, fun _ => Nat.zero_le _, ?_, .nil, ?_, .nil, ?_⟩
      · intro _ hfresh
        rw [show clause_marks none (abandon s s' false limited trail.events).clauses = [] from rfl,
          List.append_nil]
        obtain ⟨_, hlength⟩ := (@fresh_abandon_iff _ _ _ trail.clauses _).mp hfresh
        exact (inner.framed.marks.eq_of_length_le hlength).symm
      · intro hon hstale
        rw [countP_recorded_abandon, cond_false]
        change 0 < _
        have hlength := inner.framed.recorded
        by_contra hnone
        apply hstale
        rw [@fresh_abandon_iff _ _ _ trail.clauses]
        refine ⟨?_, ?_⟩
        · by_contra hinner
          have hless := inner.stale hon hinner
          omega
        · omega
      · intro mark hmark
        cases hmark
      · intro id hid
        cases hid
  owned {s s' trail} inner :=
    { framed := (framed_rule source limit).owned inner.framed
      place := inner.place
      ids := inner.ids.trans (Nat.le_succ _)
      kept := by
        intro hon hfresh
        rw [inner.kept hon hfresh]
        exact patch_clause_marks_append _ _ _
      counted := by
        intro hon
        rw [clause_marks_node, ← map_pending_clause_marks, List.length_map]
        exact inner.counted hon
      stale := by
        intro hon hstale
        rw [clause_marks_node, ← map_pending_clause_marks, List.length_map]
        exact inner.stale hon hstale
      increasing := by
        rw [clause_marks_node, ← map_pending_clause_marks, List.pairwise_map]
        simp only [ClauseMark.patch_offset]
        exact inner.increasing
      within := by
        intro mark hmark
        rw [clause_marks_node, ← map_pending_clause_marks] at hmark
        obtain ⟨pending, hpending, rfl⟩ := List.mem_map.mp hmark
        rw [ClauseMark.patch_offset]
        exact inner.within pending hpending
      owners := by
        rw [clause_owners, clause_owners, Clause.owners, List.append_nil, List.nodup_cons]
        refine ⟨fun hmem => ?_, inner.owners⟩
        have hfresh := inner.fresh _ hmem
        omega
      fresh := by
        intro id hid
        rw [clause_owners, clause_owners, Clause.owners, List.append_nil, List.mem_cons] at hid
        have hids := inner.ids
        change _ ∧ id < s'.next_node_id + 1
        rcases hid with rfl | hid
        · omega
        · have hfresh := inner.fresh id hid
          omega }
  query_refused grouping s full := by
    apply Marked.of_framed ((framed_rule source limit).query_refused grouping s full)
    · exact le_rfl
    · rfl
    · rfl
    · rfl
    · split <;> simp [Trail.Fresh, Event.is_stale]
  query grouping {s s' _ trail} room inner := by
    have hframed := (framed_rule source limit).query grouping room inner.framed
    have hfresh (h : Trail.Fresh ⟨trail.clauses, (if s.paren_query_grouping then
        [.leaked s.pos] else []) ++ trail.events⟩) : trail.Fresh :=
      fun event hevent => h event (List.mem_append_right _ hevent)
    have hcount : ((if s.paren_query_grouping then [Event.leaked s.pos] else []) ++
        trail.events).countP Event.is_recorded = trail.events.countP Event.is_recorded := by
      rw [List.countP_append, countP_leaked rfl, Nat.zero_add]
    exact
      { framed := hframed
        place := inner.place
        ids := inner.ids
        kept := fun hon h => inner.kept hon (hfresh h)
        counted := by
          rw [hcount]
          exact inner.counted
        stale := by
          intro hon hstale
          rw [hcount]
          apply inner.stale hon
          intro h
          apply hstale
          intro event hevent
          rcases List.mem_append.mp hevent with hleaked | hevent
          · split at hleaked
            · rw [List.mem_singleton.mp hleaked]
              rfl
            · cases hleaked
          · exact h event hevent
        increasing := inner.increasing
        within := inner.within
        owners := inner.owners
        fresh := inner.fresh }

/-- The group `((SELECT a FROM t) + 1)`, which is no query behind its first parenthesis. -/
def grouped_subquery : List Token :=
  [.keyword .Select, .lparen, .lparen, .keyword .Select, .word ['a'], .keyword .From, .word ['t'],
    .rparen, .operator .Plus, .number ['1'], .rparen]

end squonk.parser.method
