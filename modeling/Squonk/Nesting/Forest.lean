import Mathlib.Data.List.Basic
import Mathlib.Data.List.Nodup
import Mathlib.Data.List.TakeWhile

/-!
# Nested items as a forest

Items that hold one another, in the order that names each one before what it holds. The order
alone gives the forest back: an item holds what follows it up to the first item that it does not
hold. It is the forest it was listed from exactly where every tree lies within what it hangs below
and no tree holds the next one.
-/

namespace nesting

variable {α β : Type}

/-- Some trees: the first one with what hangs below it, and the ones behind it. -/
inductive Forest (α : Type)
  | nil
  | node (a : α) (below behind : Forest α)
  deriving DecidableEq

namespace Forest

/-- Every item in front of what hangs below it. -/
def preorder : Forest α → List α
  | nil => []
  | node a below behind => a :: (below.preorder ++ behind.preorder)

def roots : Forest α → List α
  | nil => []
  | node a _ behind => a :: behind.roots

def map (f : α → β) : Forest α → Forest β
  | nil => nil
  | node a below behind => node (f a) (below.map f) (behind.map f)

def size (forest : Forest α) : Nat := forest.preorder.length

/-- The forest with the places of its items in their order, the first one being `n`. -/
def places (n : Nat) : Forest α → Forest Nat
  | nil => nil
  | node _ below behind =>
    node n (below.places (n + 1)) (behind.places (n + 1 + below.size))

/-- Every tree lies within what it hangs below, and no tree holds the one behind it. -/
def Nested (holds : α → α → Bool) : Forest α → Prop
  | nil => True
  | node a below behind =>
    (∀ b ∈ below.roots, holds a b = true) ∧ (∀ b ∈ behind.roots.head?, holds a b = false) ∧
      below.Nested holds ∧ behind.Nested holds

@[simp] theorem preorder_nil : (nil : Forest α).preorder = [] := rfl

@[simp] theorem preorder_node (a : α) (below behind : Forest α) :
    (node a below behind).preorder = a :: (below.preorder ++ behind.preorder) := rfl

@[simp] theorem roots_nil : (nil : Forest α).roots = [] := rfl

@[simp] theorem roots_node (a : α) (below behind : Forest α) :
    (node a below behind).roots = a :: behind.roots := rfl

@[simp] theorem size_nil : (nil : Forest α).size = 0 := rfl

@[simp] theorem size_node (a : α) (below behind : Forest α) :
    (node a below behind).size = 1 + below.size + behind.size := by
  simp only [size, preorder_node, List.length_cons, List.length_append]
  omega

theorem roots_subset {forest : Forest α} : forest.roots ⊆ forest.preorder := by
  induction forest with
  | nil => exact List.Subset.refl _
  | node a below behind _ ih =>
    intro b hb
    rw [preorder_node, List.mem_cons, List.mem_append]
    obtain rfl | hb := List.mem_cons.mp hb
    · exact .inl rfl
    · exact .inr (.inr (ih hb))

/-- The first item is the first root. -/
theorem head_preorder (forest : Forest α) : forest.preorder.head? = forest.roots.head? := by
  cases forest with
  | nil | node => rfl

theorem places_preorder (forest : Forest α) (n : Nat) :
    (forest.places n).preorder = List.range' n forest.size := by
  induction forest generalizing n with
  | nil => rfl
  | node a below behind ih ih' =>
    rw [places, preorder_node, ih, ih', List.range'_append_1, size_node, Nat.add_assoc,
      Nat.add_comm 1, List.range'_succ]

theorem map_roots (f : α → β) (forest : Forest α) : (forest.map f).roots = forest.roots.map f := by
  induction forest with
  | nil => rfl
  | node a below behind _ ih => rw [map, roots_node, ih, roots_node, List.map_cons]

/-- The items are at their places. -/
theorem places_map {forest : Forest α} {n : Nat} {item : Nat → α}
    (h : ∀ i (hi : i < forest.size), item (n + i) = forest.preorder.get ⟨i, hi⟩) :
    (forest.places n).map item = forest := by
  induction forest generalizing n with
  | nil => rfl
  | node a below behind ih ih' =>
    rw [places, map]
    have hsize := size_node a below behind
    have hhead : item n = a := h 0 (by omega)
    have hbelow : (below.places (n + 1)).map item = below := by
      apply ih
      intro i hi
      have hitem := h (i + 1) (by omega)
      rw [show n + 1 + i = n + (i + 1) by omega, hitem]
      simp only [List.get_eq_getElem, preorder_node, List.getElem_cons_succ]
      exact List.getElem_append_left hi
    have hbehind : (behind.places (n + 1 + below.size)).map item = behind := by
      apply ih'
      intro i hi
      have hitem := h (1 + below.size + i) (by omega)
      rw [show n + 1 + below.size + i = n + (1 + below.size + i) by omega, hitem]
      simp only [List.get_eq_getElem, preorder_node, show 1 + below.size + i =
        below.size + i + 1 by omega, List.getElem_cons_succ]
      rw [List.getElem_append_right (by simp [size])]
      simp [size]
    rw [hhead, hbelow, hbehind]

theorem nested_map {holds : β → β → Bool} (f : α → β) (forest : Forest α) :
    (forest.map f).Nested holds ↔ forest.Nested fun a b => holds (f a) (f b) := by
  induction forest with
  | nil => exact Iff.rfl
  | node a below behind ih ih' =>
    simp only [map, Nested, ih, ih', map_roots, List.mem_map, forall_exists_index, and_imp,
      forall_apply_eq_imp_iff₂, List.head?_map, Option.mem_def, Option.map_eq_some_iff]

/-! ## The forest of an order -/

/-- The forest where an item holds all that follows up to the first one that it does not hold. -/
def rebuild (holds : α → α → Bool) : List α → Forest α
  | [] => nil
  | a :: as =>
    node a (rebuild holds (as.takeWhile (holds a))) (rebuild holds (as.dropWhile (holds a)))
termination_by as => as.length
decreasing_by
  · exact Nat.lt_succ_of_le (List.takeWhile_sublist _).length_le
  · exact Nat.lt_succ_of_le (List.dropWhile_sublist _).length_le

variable {holds : α → α → Bool}

/-- What an item holds, whatever holds the item holds too. -/
def Passed (holds : α → α → Bool) : Prop :=
  ∀ a b c, holds a b = true → holds b c = true → holds a c = true

theorem rebuild_nil : rebuild holds [] = nil := by rw [rebuild]

theorem rebuild_cons (a : α) (as : List α) :
    rebuild holds (a :: as) = node a (rebuild holds (as.takeWhile (holds a)))
      (rebuild holds (as.dropWhile (holds a))) := by rw [rebuild]

theorem rebuild_preorder (as : List α) : (rebuild holds as).preorder = as := by
  induction as using rebuild.induct holds with
  | case1 => rw [rebuild_nil, preorder_nil]
  | case2 a as ih ih' =>
    rw [rebuild_cons, preorder_node, ih, ih', List.takeWhile_append_dropWhile]

theorem rebuild_nested (as : List α) : (rebuild holds as).Nested holds := by
  induction as using rebuild.induct holds with
  | case1 => rw [rebuild_nil]; trivial
  | case2 a as ih ih' =>
    rw [rebuild_cons]
    refine ⟨?_, ?_, ih, ih'⟩
    · intro b hb
      have hmem := roots_subset hb
      rw [rebuild_preorder] at hmem
      exact List.mem_takeWhile_imp hmem
    · intro b hb
      rw [← head_preorder, rebuild_preorder] at hb
      have hstop := List.head?_dropWhile_not (holds a) as
      rw [Option.mem_def.mp hb] at hstop
      exact hstop

/-- What hangs below an item lies within it. -/
theorem Nested.holds_below (htrans : Passed holds) {a : α} :
    ∀ {below : Forest α}, below.Nested holds → (∀ b ∈ below.roots, holds a b = true) →
      ∀ b ∈ below.preorder, holds a b = true := by
  intro below
  induction below with
  | nil => exact fun _ _ _ hb => (by cases hb)
  | node c below behind ih ih' =>
    intro hnested hroots b hb
    have hc : holds a c = true := hroots c List.mem_cons_self
    rw [preorder_node, List.mem_cons, List.mem_append] at hb
    obtain rfl | hb | hb := hb
    · exact hc
    · exact ih hnested.2.2.1 (fun d hd => htrans _ _ _ hc (hnested.1 d hd)) b hb
    · exact ih' hnested.2.2.2 (fun d hd => hroots d (List.mem_cons_of_mem c hd)) b hb

/-- A nested forest is rebuilt from its order. -/
theorem rebuild_of_nested (htrans : Passed holds)
    {forest : Forest α} (h : forest.Nested holds) : rebuild holds forest.preorder = forest := by
  induction forest with
  | nil => exact rebuild_nil
  | node a below behind ih ih' =>
    obtain ⟨hroots, hnext, hbelow, hbehind⟩ := h
    have hheld := hbelow.holds_below htrans hroots
    rw [preorder_node, rebuild_cons, List.takeWhile_append_of_pos hheld,
      List.dropWhile_append_of_pos hheld]
    have hstop : ∀ b ∈ behind.preorder.head?, holds a b = false := by
      rw [head_preorder]
      exact hnext
    cases hhead : behind.preorder with
    | nil =>
      rw [List.takeWhile_nil, List.append_nil, List.dropWhile_nil, ← hhead, ih hbelow, ih' hbehind]
    | cons b rest =>
      have hb := hstop b (by rw [hhead]; rfl)
      rw [List.takeWhile_cons_of_neg (by simp [hb]), List.append_nil,
        List.dropWhile_cons_of_neg (by simp [hb]), ← hhead, ih hbelow, ih' hbehind]

theorem rebuild_eq_iff (htrans : Passed holds)
    (forest : Forest α) : rebuild holds forest.preorder = forest ↔ forest.Nested holds := by
  refine ⟨fun h => ?_, fun h => rebuild_of_nested htrans h⟩
  rw [← h]
  exact rebuild_nested _

/-- No tree has anything to do with the ones behind it. -/
def Apart (apart : α → α → Prop) : Forest α → Prop
  | nil => True
  | node a below behind =>
    (∀ b ∈ behind.roots, apart a b) ∧ below.Apart apart ∧ behind.Apart apart

theorem apart_map {apart : β → β → Prop} (f : α → β) (forest : Forest α) :
    (forest.map f).Apart apart ↔ forest.Apart fun a b => apart (f a) (f b) := by
  induction forest with
  | nil => exact Iff.rfl
  | node a below behind ih ih' =>
    simp only [map, Apart, ih, ih', map_roots, List.mem_map, forall_exists_index, and_imp,
      forall_apply_eq_imp_iff₂]

/-- Every item is a root or within one. -/
theorem Nested.root_of (htrans : Passed holds) {forest : Forest α} (hnested : forest.Nested holds)
    {a : α} (ha : a ∈ forest.preorder) : ∃ root ∈ forest.roots, root = a ∨ holds root a = true := by
  induction forest with
  | nil => cases ha
  | node b below behind _ ih =>
    rw [preorder_node, List.mem_cons, List.mem_append] at ha
    obtain rfl | ha | ha := ha
    · exact ⟨a, List.mem_cons_self, .inl rfl⟩
    · exact ⟨b, List.mem_cons_self, .inr (hnested.2.2.1.holds_below htrans hnested.1 a ha)⟩
    · obtain ⟨root, hroot, hwithin⟩ := ih hnested.2.2.2 ha
      exact ⟨root, List.mem_cons_of_mem b hroot, hwithin⟩

/-! ## What hangs below an item -/

section Kids

variable [DecidableEq α]

/-- What hangs directly below the items `a`. -/
def kids (a : α) : Forest α → List α
  | nil => []
  | node b below behind => (if b = a then below.roots else []) ++ below.kids a ++ behind.kids a

theorem kids_eq_nil {forest : Forest α} {a : α} (h : a ∉ forest.preorder) : forest.kids a = [] := by
  induction forest with
  | nil => rfl
  | node b below behind ih ih' =>
    rw [preorder_node, List.mem_cons, List.mem_append] at h
    push Not at h
    rw [kids, if_neg (Ne.symm h.1), ih h.2.1, ih' h.2.2]
    rfl

theorem kids_subset {forest : Forest α} {a : α} : forest.kids a ⊆ forest.preorder := by
  induction forest with
  | nil => exact List.Subset.refl _
  | node b below behind ih ih' =>
    intro c hc
    rw [kids, List.mem_append, List.mem_append] at hc
    rw [preorder_node, List.mem_cons, List.mem_append]
    obtain (hc | hc) | hc := hc
    · split at hc
      · exact .inr (.inl (roots_subset hc))
      · cases hc
    · exact .inr (.inl (ih hc))
    · exact .inr (.inr (ih' hc))

/-- What hangs below an item stands behind it in the order. -/
theorem lt_of_mem_kids [LT α] {forest : Forest α} {a b : α}
    (horder : forest.preorder.Pairwise (· < ·)) (h : b ∈ forest.kids a) : a < b := by
  induction forest with
  | nil => cases h
  | node c below behind ih ih' =>
    rw [preorder_node, List.pairwise_cons, List.pairwise_append] at horder
    obtain ⟨hlt, hbelow, hbehind, -⟩ := horder
    rw [kids, List.mem_append, List.mem_append] at h
    obtain (h | h) | h := h
    · split at h
      · next hc =>
        subst hc
        exact hlt b (List.mem_append_left _ (roots_subset h))
      · cases h
    · exact ih hbelow h
    · exact ih' hbehind h

theorem Nested.holds_kid {forest : Forest α} (hnested : forest.Nested holds) {a b : α}
    (h : b ∈ forest.kids a) : holds a b = true := by
  induction forest with
  | nil => cases h
  | node c below behind ih ih' =>
    rw [kids, List.mem_append, List.mem_append] at h
    obtain (h | h) | h := h
    · split at h
      · next hc =>
        subst hc
        exact hnested.1 b h
      · cases h
    · exact ih hnested.2.2.1 h
    · exact ih' hnested.2.2.2 h

/-- How an item stands to another one: it is that one, holds it, is within something that hangs
below it, or has nothing to do with it. -/
theorem Nested.mem_cases (htrans : Passed holds) {apart : α → α → Prop}
    (hsymm : ∀ a b, apart a b → apart b a)
    (hwithin : ∀ a b c, apart a b → holds a c = true → apart c b) {forest : Forest α}
    (hnested : forest.Nested holds) (hapart : forest.Apart apart) {a b : α}
    (ha : a ∈ forest.preorder) (hb : b ∈ forest.preorder) :
    b = a ∨ holds b a = true ∨ (∃ kid ∈ forest.kids a, kid = b ∨ holds kid b = true) ∨
      apart b a := by
  induction forest with
  | nil => cases ha
  | node c below behind ih ih' =>
    obtain ⟨hroots, -, hbelow, hbehind⟩ := hnested
    obtain ⟨hapart, hbelow', hbehind'⟩ := hapart
    have hheld := hbelow.holds_below htrans hroots
    have hbeside : ∀ d ∈ behind.preorder, apart c d := by
      intro d hd
      obtain ⟨root, hroot, rfl | hd⟩ := hbehind.root_of htrans hd
      · exact hapart root hroot
      · exact hsymm _ _ (hwithin _ _ _ (hsymm _ _ (hapart root hroot)) hd)
    have hacross : ∀ d ∈ c :: below.preorder, ∀ e ∈ behind.preorder, apart d e := by
      intro d hd e he
      obtain rfl | hd := List.mem_cons.mp hd
      · exact hbeside e he
      · exact hwithin _ _ _ (hbeside e he) (hheld d hd)
    rw [preorder_node, ← List.cons_append, List.mem_append] at ha hb
    obtain ha | ha := ha
    · obtain hb | hb := hb
      · obtain rfl | ha' := List.mem_cons.mp ha
        · obtain rfl | hb' := List.mem_cons.mp hb
          · exact .inl rfl
          · obtain ⟨kid, hkid, hholds⟩ := hbelow.root_of htrans hb'
            refine .inr (.inr (.inl ⟨kid, ?_, hholds⟩))
            rw [kids, if_pos rfl]
            exact List.mem_append_left _ (List.mem_append_left _ hkid)
        · obtain rfl | hb' := List.mem_cons.mp hb
          · exact .inr (.inl (hheld a ha'))
          · obtain h | h | ⟨kid, hkid, hholds⟩ | h := ih hbelow hbelow' ha' hb'
            · exact .inl h
            · exact .inr (.inl h)
            · refine .inr (.inr (.inl ⟨kid, ?_, hholds⟩))
              rw [kids]
              exact List.mem_append_left _ (List.mem_append_right _ hkid)
            · exact .inr (.inr (.inr h))
      · exact .inr (.inr (.inr (hsymm _ _ (hacross a ha b hb))))
    · obtain hb | hb := hb
      · exact .inr (.inr (.inr (hacross b hb a ha)))
      · obtain h | h | ⟨kid, hkid, hholds⟩ | h := ih' hbehind hbehind' ha hb
        · exact .inl h
        · exact .inr (.inl h)
        · refine .inr (.inr (.inl ⟨kid, ?_, hholds⟩))
          rw [kids]
          exact List.mem_append_right _ hkid
        · exact .inr (.inr (.inr h))

end Kids

end Forest

end nesting
