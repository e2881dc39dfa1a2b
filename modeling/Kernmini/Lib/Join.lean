/-
Kernmini.Lib.Join — joining the adjacent elements of a sequence that belong
together.

`key` says what belongs together (an element with no key stands alone) and
`glue` joins two elements of one key. Joining a sequence piece by piece and
then as a whole gives the same as joining it at once
(`join_flatMap_join`), and so does a translation in between that keeps what
belongs together (`join_filterMap_join`).
-/
import Mathlib.Data.List.Basic

namespace Kernmini.Lib

variable {α β κ ι : Type*}

/-- How elements are joined. -/
structure Joining (α κ : Type*) where
  key : α → Option κ
  glue : α → α → α
  key_glue : ∀ {a b k}, key a = some k → key b = some k → key (glue a b) = some k
  glue_assoc : ∀ {a b c k}, key a = some k → key b = some k → key c = some k →
    glue (glue a b) c = glue a (glue b c)

namespace Joining

variable (J : Joining α κ) (K : Joining β ι)

/-- `a` and `b` belong together. -/
def Together (a b : α) : Prop := (J.key a).isSome = true ∧ J.key a = J.key b

variable {J} in
theorem Together.keys {a b : α} (h : J.Together a b) :
    ∃ k, J.key a = some k ∧ J.key b = some k := by
  obtain ⟨k, hk⟩ := Option.isSome_iff_exists.mp h.1
  exact ⟨k, hk, h.2 ▸ hk⟩

variable {J} in
theorem together_of_keys {a b : α} {k : κ} (ha : J.key a = some k) (hb : J.key b = some k) :
    J.Together a b := ⟨by rw [ha]; rfl, ha.trans hb.symm⟩

variable [DecidableEq κ] [DecidableEq ι]

instance (a b : α) : Decidable (J.Together a b) := inferInstanceAs (Decidable (_ ∧ _))

/-- Put `a` before a joined sequence. -/
def push (a : α) : List α → List α
  | [] => [a]
  | b :: rest => if J.Together a b then J.glue a b :: rest else a :: b :: rest

/-- Join what is adjacent and belongs together. -/
def join (xs : List α) : List α := xs.foldr J.push []

variable {J K} {a b c : α} {xs : List α}

@[simp] theorem push_nil : J.push a [] = [a] := rfl

theorem push_together {rest : List α} (h : J.Together a b) :
    J.push a (b :: rest) = J.glue a b :: rest := if_pos h

theorem push_apart {rest : List α} (h : ¬ J.Together a b) :
    J.push a (b :: rest) = a :: b :: rest := if_neg h

@[simp] theorem join_nil : J.join [] = [] := rfl

theorem join_cons : J.join (a :: xs) = J.push a (J.join xs) := rfl

theorem join_append {ys : List α} : J.join (xs ++ ys) = xs.foldr J.push (J.join ys) :=
  List.foldr_append

theorem push_alone (h : J.key a = none) (l : List α) : J.push a l = a :: l := by
  cases l with
  | nil => rfl
  | cons b rest => simp [push, Together, h]

/-- Joining two elements first, or one after the other. -/
theorem push_glue (h : J.Together a b) (l : List α) :
    J.push (J.glue a b) l = J.push a (J.push b l) := by
  obtain ⟨k, ha, hb⟩ := h.keys
  have hab := J.key_glue ha hb
  cases l with
  | nil => rw [push_nil, push_nil, push_together h]
  | cons c rest =>
      by_cases hbc : J.Together b c
      · have hc : J.key c = some k := hbc.2 ▸ hb
        have hglued : J.Together a (J.glue b c) := together_of_keys ha (J.key_glue hb hc)
        rw [push_together hbc, push_together hglued, push_together (together_of_keys hab hc),
          J.glue_assoc ha hb hc]
      · have hglued : ¬ J.Together (J.glue a b) c := by
          intro hg
          exact hbc (together_of_keys hb (hg.2 ▸ hab))
        rw [push_apart hbc, push_together h, push_apart hglued]

theorem foldr_push (a : α) (l z : List α) :
    (J.push a l).foldr J.push z = J.push a (l.foldr J.push z) := by
  cases l with
  | nil => rfl
  | cons b rest =>
      by_cases h : J.Together a b
      · rw [push_together h, List.foldr_cons, List.foldr_cons, push_glue h]
      · rw [push_apart h, List.foldr_cons]

theorem foldr_join (xs z : List α) : (J.join xs).foldr J.push z = xs.foldr J.push z := by
  induction xs with
  | nil => rfl
  | cons a xs ih => rw [join_cons, foldr_push, ih, List.foldr_cons]

/-- Cutting a sequence and joining the pieces does not change what it joins to. -/
theorem join_flatMap_join (pieces : List (List α)) :
    J.join (pieces.flatMap J.join) = J.join pieces.flatten := by
  induction pieces with
  | nil => rfl
  | cons piece pieces ih =>
      rw [List.flatMap_cons, List.flatten_cons, join_append, join_append, foldr_join, ih]

/-! ## Translation -/

/-- `f` keeps together what belongs together, or drops it. -/
def Respects (J : Joining α κ) (K : Joining β ι) (f : α → Option β) : Prop :=
  ∀ a b, J.Together a b →
    (f a = none ∧ f b = none ∧ f (J.glue a b) = none) ∨
      ∃ x y, f a = some x ∧ f b = some y ∧ f (J.glue a b) = some (K.glue x y) ∧ K.Together x y

theorem join_filterMap_push {f : α → Option β} (h : Respects J K f) (a : α) (l : List α) :
    K.join ((J.push a l).filterMap f) = K.join ((a :: l).filterMap f) := by
  cases l with
  | nil => rfl
  | cons b rest =>
      by_cases hab : J.Together a b
      · rw [push_together hab]
        rcases h a b hab with ⟨ha, hb, hglue⟩ | ⟨x, y, ha, hb, hglue, hxy⟩
        · simp only [List.filterMap_cons, ha, hb, hglue]
        · simp only [List.filterMap_cons, ha, hb, hglue, join_cons, push_glue hxy]
      · rw [push_apart hab]

theorem join_filterMap_join {f : α → Option β} (h : Respects J K f) (xs : List α) :
    K.join ((J.join xs).filterMap f) = K.join (xs.filterMap f) := by
  induction xs with
  | nil => rfl
  | cons a xs ih =>
      rw [join_cons, join_filterMap_push h, List.filterMap_cons, List.filterMap_cons]
      cases f a with
      | none => exact ih
      | some x => rw [join_cons, join_cons, ih]

/-! ## What is kept -/

theorem length_join_le (xs : List α) : (J.join xs).length ≤ xs.length := by
  induction xs with
  | nil => exact Nat.le_refl _
  | cons a xs ih =>
      rw [join_cons, List.length_cons]
      cases hl : J.join xs with
      | nil => simp
      | cons b rest =>
          rw [hl, List.length_cons] at ih
          by_cases hab : J.Together a b
          · rw [push_together hab, List.length_cons]
            omega
          · rw [push_apart hab, List.length_cons, List.length_cons]
            omega

/-- An element that stands alone ends what comes before it. -/
theorem join_append_alone (h : J.key a = none) (xs ys : List α) :
    J.join (xs ++ a :: ys) = J.join xs ++ a :: J.join ys := by
  induction xs with
  | nil => rw [List.nil_append, join_cons, push_alone h, join_nil, List.nil_append]
  | cons b xs ih =>
      rw [List.cons_append, join_cons, join_cons, ih]
      cases hl : J.join xs with
      | nil =>
          have hba : ¬ J.Together b a := by
            intro hg
            rw [Together, hg.2, h] at hg
            cases hg.1
          rw [List.nil_append, push_apart hba, push_nil]
          rfl
      | cons c rest =>
          by_cases hbc : J.Together b c
          · rw [List.cons_append, push_together hbc, push_together hbc]
            rfl
          · rw [List.cons_append, push_apart hbc, push_apart hbc]
            rfl

/-- Elements that stand alone are counted as before. -/
theorem countP_join {p : α → Bool} (h : ∀ a, p a = true → J.key a = none) (xs : List α) :
    (J.join xs).countP p = xs.countP p := by
  have hkey : ∀ {a k}, J.key a = some k → p a = false := by
    intro a k ha
    cases hp : p a with
    | false => rfl
    | true =>
        rw [h a hp] at ha
        cases ha
  induction xs with
  | nil => rfl
  | cons a xs ih =>
      rw [join_cons, List.countP_cons, ← ih]
      cases J.join xs with
      | nil => rw [push_nil, List.countP_cons]
      | cons b rest =>
          by_cases hab : J.Together a b
          · obtain ⟨k, ha, hb⟩ := hab.keys
            rw [push_together hab]
            simp [hkey ha, hkey hb, hkey (J.key_glue ha hb)]
          · rw [push_apart hab, List.countP_cons]

/-- Whatever stands in a sequence is covered by an element of what it joins to. -/
theorem exists_mem_join {R : α → α → Prop} (hrefl : ∀ a, R a a)
    (htrans : ∀ a b c, R a b → R b c → R a c)
    (hglue : ∀ a b, J.Together a b → R a (J.glue a b) ∧ R b (J.glue a b)) (hmem : a ∈ xs) :
    ∃ b ∈ J.join xs, R a b := by
  -- pushing keeps what is covered, and covers what is pushed
  have hpush : ∀ (x : α) (l : List α), (∃ b ∈ J.push x l, R x b) ∧
      ∀ b ∈ l, ∃ c ∈ J.push x l, R b c := by
    intro x l
    cases l with
    | nil => simp [hrefl]
    | cons c rest =>
        by_cases hxc : J.Together x c
        · rw [push_together hxc]
          refine ⟨⟨_, List.mem_cons_self .., (hglue x c hxc).1⟩, fun b hb => ?_⟩
          rcases List.mem_cons.mp hb with heq | hrest
          · exact ⟨_, List.mem_cons_self .., heq ▸ (hglue x c hxc).2⟩
          · exact ⟨b, List.mem_cons_of_mem _ hrest, hrefl b⟩
        · rw [push_apart hxc]
          exact ⟨⟨x, List.mem_cons_self .., hrefl x⟩,
            fun b hb => ⟨b, List.mem_cons_of_mem _ hb, hrefl b⟩⟩
  induction xs with
  | nil => cases hmem
  | cons x xs ih =>
      rw [join_cons]
      rcases List.mem_cons.mp hmem with heq | hrest
      · rw [heq]
        exact (hpush x _).1
      · obtain ⟨b, hb, hab⟩ := ih hrest
        obtain ⟨c, hc, hbc⟩ := (hpush x _).2 b hb
        exact ⟨c, hc, htrans a b c hab hbc⟩

/-- Nothing that belongs together is left adjacent. -/
theorem isChain_join (xs : List α) : (J.join xs).IsChain (fun a b => ¬ J.Together a b) := by
  induction xs with
  | nil => exact List.IsChain.nil
  | cons a xs ih =>
      rw [join_cons]
      cases hl : J.join xs with
      | nil => exact List.IsChain.singleton _
      | cons b rest =>
          rw [hl] at ih
          by_cases hab : J.Together a b
          · obtain ⟨k, ha, hb⟩ := hab.keys
            rw [push_together hab]
            cases rest with
            | nil => exact List.IsChain.singleton _
            | cons c rest =>
                rw [List.isChain_cons_cons] at ih ⊢
                refine ⟨fun hg => ih.1 (together_of_keys hb ?_), ih.2⟩
                rw [← hg.2]
                exact J.key_glue ha hb
          · rw [push_apart hab, List.isChain_cons_cons]
            exact ⟨hab, ih⟩

end Joining

end Kernmini.Lib
