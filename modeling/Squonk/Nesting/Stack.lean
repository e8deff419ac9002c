import Mathlib.Logic.Function.Basic
import Squonk.Nesting.Forest

/-!
# A forest read off a stack

The items of an order are pushed one after the other. Whatever does not hold the next item is
popped; the item is then a child of the top, or a root. The stack is always the path to the last
item, so that the children and the roots are those of the forest of the order.
-/

namespace nesting

variable {α : Type} [DecidableEq α] {holds : α → α → Bool}

/-- The children of each item and the roots, with the path to the last item, its end first. -/
structure Links (α : Type) where
  children : α → List α
  roots : List α
  stack : List α

def Links.empty : Links α := ⟨fun _ => [], [], []⟩

def Links.push (holds : α → α → Bool) (self : Links α) (a : α) : Links α :=
  match self.stack.dropWhile fun top => !holds top a with
  | [] => { self with roots := self.roots ++ [a], stack := [a] }
  | top :: stack =>
    { self with
      children := Function.update self.children top (self.children top ++ [a])
      stack := a :: top :: stack }

def Links.pushes (holds : α → α → Bool) (self : Links α) (as : List α) : Links α :=
  as.foldl (push holds) self

namespace Forest

omit [DecidableEq α] in
/-- Two ways to cut a list in two are one where what is behind the cut starts alike. -/
theorem append_cut {front front' back back' : List α} (h : front ++ back = front' ++ back')
    (hhead : back.head? = back'.head?) (hnodup : (front ++ back).Nodup) :
    front = front' ∧ back = back' := by
  obtain ⟨mid, rfl, rfl⟩ | ⟨mid, rfl, rfl⟩ := List.append_eq_append_iff.mp h
  · cases mid with
    | nil => exact ⟨(List.append_nil front).symm, rfl⟩
    | cons a mid =>
      have hmem : a ∈ back' := List.mem_of_mem_head? (Option.mem_def.mpr hhead.symm)
      have hback := List.nodup_cons.mp (List.Nodup.of_append_right hnodup)
      exact absurd (List.mem_append_right mid hmem) hback.1
  · cases mid with
    | nil => exact ⟨List.append_nil front', rfl⟩
    | cons a mid =>
      have hmem : a ∈ back := List.mem_of_mem_head? (Option.mem_def.mpr hhead)
      rw [h] at hnodup
      have hback := List.nodup_cons.mp (List.Nodup.of_append_right hnodup)
      exact absurd (List.mem_append_right mid hmem) hback.1

/-- A forest without an item twice is determined by its order, its roots and its children. -/
theorem ext_of_kids {forest forest' : Forest α} (horder : forest.preorder = forest'.preorder)
    (hnodup : forest.preorder.Nodup) (hroots : forest.roots = forest'.roots)
    (hkids : ∀ a, forest.kids a = forest'.kids a) : forest = forest' := by
  induction forest generalizing forest' with
  | nil =>
    cases forest' with
    | nil => rfl
    | node => cases horder
  | node a below behind ih ih' =>
    cases forest' with
    | nil => cases horder
    | node a' below' behind' =>
      simp only [preorder_node, List.cons.injEq] at horder
      obtain ⟨rfl, horder⟩ := horder
      rw [roots_node, roots_node, List.cons.injEq] at hroots
      rw [preorder_node, List.nodup_cons] at hnodup
      obtain ⟨ha, hnodup⟩ := hnodup
      have hhead : behind.preorder.head? = behind'.preorder.head? := by
        rw [head_preorder, head_preorder, hroots.2]
      obtain ⟨hbelow, hbehind⟩ := append_cut horder hhead hnodup
      obtain ⟨hnodup₁, hnodup₂, hdisjoint⟩ := List.nodup_append'.mp hnodup
      rw [List.mem_append, not_or] at ha
      have hnone : ∀ b, b ∉ below.preorder → below.kids b = [] ∧ below'.kids b = [] :=
        fun b hb => ⟨kids_eq_nil hb, kids_eq_nil (by rw [← hbelow]; exact hb)⟩
      have hnone' : ∀ b, b ∉ behind.preorder → behind.kids b = [] ∧ behind'.kids b = [] :=
        fun b hb => ⟨kids_eq_nil hb, kids_eq_nil (by rw [← hbehind]; exact hb)⟩
      have hroots' : below.roots = below'.roots := by
        have hone := hkids a
        rw [kids, kids, if_pos rfl, if_pos rfl, (hnone a ha.1).1, (hnone a ha.1).2,
          (hnone' a ha.2).1, (hnone' a ha.2).2] at hone
        simpa using hone
      have hboth : ∀ b, below.kids b = below'.kids b ∧ behind.kids b = behind'.kids b := by
        intro b
        have hone := hkids b
        rw [kids, kids, hroots', List.append_assoc, List.append_assoc] at hone
        have hone := List.append_cancel_left hone
        by_cases hb : b ∈ below.preorder
        · obtain ⟨hkids₁, hkids₂⟩ := hnone' b fun hmem => hdisjoint hb hmem
          rw [hkids₁, hkids₂, List.append_nil, List.append_nil] at hone
          exact ⟨hone, hkids₁.trans hkids₂.symm⟩
        · obtain ⟨hkids₁, hkids₂⟩ := hnone b hb
          rw [hkids₁, hkids₂, List.nil_append, List.nil_append] at hone
          exact ⟨hkids₁.trans hkids₂.symm, hone⟩
      rw [ih hbelow hnodup₁ hroots' fun b => (hboth b).1,
        ih' hbehind hnodup₂ hroots.2 fun b => (hboth b).2]

end Forest

namespace Links

theorem pushes_append (self : Links α) (as bs : List α) :
    self.pushes holds (as ++ bs) = (self.pushes holds as).pushes holds bs := List.foldl_append

/-- An item is a child of the first one on the stack that holds it. -/
theorem push_eq {self : Links α} {a : α} {popped stack : List α}
    (hstack : self.stack = popped ++ stack) (hpopped : ∀ top ∈ popped, holds top a = false)
    (htop : ∀ top ∈ stack.head?, holds top a = true) :
    (self.push holds a).stack = a :: stack ∧
      (self.push holds a).roots = self.roots ++ (if stack.head? = none then [a] else []) ∧
      ∀ b, (self.push holds a).children b =
        self.children b ++ if stack.head? = some b then [a] else [] := by
  have hrest : self.stack.dropWhile (fun top => !holds top a) = stack := by
    rw [hstack, List.dropWhile_append_of_pos fun top hmem => by simp [hpopped top hmem]]
    cases stack with
    | nil => rfl
    | cons top stack => exact List.dropWhile_cons_of_neg (by simp [htop top rfl])
  cases stack with
  | nil => simp [push, hrest]
  | cons top stack =>
    refine ⟨by simp [push, hrest], by simp [push, hrest], ?_⟩
    intro b
    by_cases hb : top = b
    · subst hb
      simp [push, hrest]
    · simp [push, hrest, hb, Function.update_of_ne (Ne.symm hb)]

/-- Pushing an order adds the links of its forest, whose roots are children of the item on the
stack that holds them all. -/
theorem pushes_eq (htrans : Forest.Passed holds) (as : List α) :
    ∀ {self : Links α} {popped stack : List α}, as.Nodup → (∀ top ∈ stack.head?, top ∉ as) →
      self.stack = popped ++ stack → (∀ a ∈ as.head?, ∀ top ∈ popped, holds top a = false) →
      (∀ top ∈ stack.head?, ∀ a ∈ as, holds top a = true) →
      (∃ path, (self.pushes holds as).stack = path ++ stack ∧
        ∀ top ∈ path, top ∈ popped ∨ top ∈ as) ∧
      (self.pushes holds as).roots =
        self.roots ++ (if stack.head? = none then (Forest.rebuild holds as).roots else []) ∧
      ∀ b, (self.pushes holds as).children b = self.children b ++
        ((if stack.head? = some b then (Forest.rebuild holds as).roots else []) ++
          (Forest.rebuild holds as).kids b) := by
  induction as using Forest.rebuild.induct holds with
  | case1 =>
    intro self popped stack _ _ hstack _ _
    refine ⟨⟨popped, hstack, fun top hmem => .inl hmem⟩, ?_, ?_⟩
    · simp [pushes, Forest.rebuild_nil]
    · simp [pushes, Forest.rebuild_nil, Forest.kids]
  | case2 a as ih ih' =>
    intro self popped stack hnodup hfresh hstack hpopped hheld
    obtain ⟨hnot, hnodup'⟩ := List.nodup_cons.mp hnodup
    have hfirst : ∀ top ∈ popped, holds top a = false := hpopped a rfl
    have htop : ∀ top ∈ stack.head?, holds top a = true := fun top hmem =>
      hheld top hmem a List.mem_cons_self
    obtain ⟨hstack₁, hroots₁, hchildren₁⟩ := push_eq hstack hfirst htop
    have hpushed : (self.push holds a).stack = [] ++ (a :: stack) := hstack₁
    have hcut : as.takeWhile (holds a) ++ as.dropWhile (holds a) = as :=
      List.takeWhile_append_dropWhile
    have hfront : as.takeWhile (holds a) ⊆ as := (List.takeWhile_sublist _).subset
    have hback : as.dropWhile (holds a) ⊆ as := (List.dropWhile_sublist _).subset
    have hfresh₁ : ∀ top ∈ (a :: stack).head?, top ∉ as.takeWhile (holds a) := by
      intro top htop hmem
      obtain rfl := Option.some.inj (Option.mem_def.mp htop)
      exact hnot (hfront hmem)
    have hheld₁ : ∀ top ∈ (a :: stack).head?, ∀ b ∈ as.takeWhile (holds a),
        holds top b = true := by
      intro top htop b hb
      obtain rfl := Option.some.inj (Option.mem_def.mp htop)
      exact List.mem_takeWhile_imp hb
    -- Everything up to the first item that `a` does not hold ends up below `a`.
    obtain ⟨⟨path, hpath, hheld₁⟩, hroots₂, hchildren₂⟩ := ih (hcut ▸ hnodup').of_append_left
      hfresh₁ hpushed (fun _ _ _ hmem => by cases hmem) hheld₁
    have hspine : ((self.push holds a).pushes holds (as.takeWhile (holds a))).stack =
        (path ++ [a]) ++ stack := by
      rw [hpath, List.append_assoc]
      rfl
    -- Nothing of the path below `a` holds that item, since `a` holds all of the path.
    obtain ⟨⟨path', hpath', hheld₂⟩, hroots₃, hchildren₃⟩ := ih'
      (hcut ▸ hnodup').of_append_right
      (fun top htop hmem => hfresh top htop (List.mem_cons_of_mem a (hback hmem))) hspine (by
        intro b hb top hmem
        have hab : holds a b = false := by
          have hstop := List.head?_dropWhile_not (holds a) as
          rw [Option.mem_def.mp hb] at hstop
          exact hstop
        obtain hmem | hmem := List.mem_append.mp hmem
        · obtain hnone | hfront := hheld₁ top hmem
          · cases hnone
          · have hatop : holds a top = true := List.mem_takeWhile_imp hfront
            by_contra hholds
            rw [Bool.not_eq_false] at hholds
            rw [htrans _ _ _ hatop hholds] at hab
            cases hab
        · rw [List.mem_singleton.mp hmem]
          exact hab)
      (fun top htop b hb => hheld top htop b (List.mem_cons_of_mem a (hback hb)))
    have hall : self.pushes holds (a :: as) = ((self.push holds a).pushes holds
        (as.takeWhile (holds a))).pushes holds (as.dropWhile (holds a)) := by
      rw [← pushes_append, hcut]
      rfl
    rw [hall, Forest.rebuild_cons]
    refine ⟨⟨path', hpath', ?_⟩, ?_, ?_⟩
    · intro top hmem
      right
      obtain hmem | hmem := hheld₂ top hmem
      · obtain hmem | hmem := List.mem_append.mp hmem
        · obtain hnone | hmem := hheld₁ top hmem
          · cases hnone
          · exact List.mem_cons_of_mem a (hfront hmem)
        · exact List.mem_singleton.mp hmem ▸ List.mem_cons_self
      · exact List.mem_cons_of_mem a (hback hmem)
    · rw [hroots₃, hroots₂, hroots₁, List.head?_cons, if_neg (Option.some_ne_none a)]
      split
      · simp
      · simp
    · intro b
      rw [hchildren₃, hchildren₂, hchildren₁, Forest.kids, List.head?_cons, Forest.roots_node]
      by_cases hb : stack.head? = some b
      · have hmem := hfresh b hb
        rw [List.mem_cons, not_or] at hmem
        have hnone : ∀ forest : Forest α, forest.preorder ⊆ as → forest.kids b = [] :=
          fun forest hsub => Forest.kids_eq_nil fun h => hmem.2 (hsub h)
        have hba : a ≠ b := fun h => hmem.1 h.symm
        have hnone₁ := hnone (Forest.rebuild holds (as.takeWhile (holds a))) (by
          rw [Forest.rebuild_preorder]
          exact hfront)
        have hnone₂ := hnone (Forest.rebuild holds (as.dropWhile (holds a))) (by
          rw [Forest.rebuild_preorder]
          exact hback)
        simp [hb, hba, hnone₁, hnone₂]
      · simp [hb]

/-- The links that pushing an order makes are those of its forest. -/
theorem pushes_empty (htrans : Forest.Passed holds) {as : List α}
    (hnodup : as.Nodup) :
    (Links.empty.pushes holds as).roots = (Forest.rebuild holds as).roots ∧
      ∀ a, (Links.empty.pushes holds as).children a = (Forest.rebuild holds as).kids a := by
  have hstack : (empty : Links α).stack = [] ++ [] := rfl
  obtain ⟨-, hroots, hchildren⟩ := pushes_eq htrans as hnodup (fun _ h => by cases h) hstack
    (fun _ _ _ h => by cases h) (fun _ h => by cases h)
  exact ⟨by simpa [empty] using hroots, fun a => by simpa [empty] using hchildren a⟩

/-- Pushing the order of a forest gives its links back exactly where it is nested. -/
theorem pushes_iff (htrans : Forest.Passed holds) {forest : Forest α}
    (hnodup : forest.preorder.Nodup) :
    ((Links.empty.pushes holds forest.preorder).roots = forest.roots ∧
      ∀ a, (Links.empty.pushes holds forest.preorder).children a = forest.kids a) ↔
        forest.Nested holds := by
  obtain ⟨hroots, hchildren⟩ := pushes_empty htrans hnodup
  rw [← Forest.rebuild_eq_iff htrans]
  constructor
  · rintro ⟨hroots', hchildren'⟩
    apply Forest.ext_of_kids (Forest.rebuild_preorder _)
    · rw [Forest.rebuild_preorder]
      exact hnodup
    · exact hroots.symm.trans hroots'
    · exact fun a => (hchildren a).symm.trans (hchildren' a)
  · intro h
    rw [h] at hroots hchildren
    exact ⟨hroots, hchildren⟩

end Links

end nesting
