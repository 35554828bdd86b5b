import DocQuery.Proofs.Run
import Mathlib.Data.List.Forall2

/-!
# One compilation matched by another

Forward simulation: whatever the first compilation yields, the second yields up
to a relation, from the same free number and with the same one left. Nothing is
said where the first is rejected, so the second may accept more. Where the second
is the first with a function applied to what it yields, it is rejected alike as
well, and the two are compared as equal compilations.
-/

namespace DocQuery.Compile

variable {α β γ δ : Type}

/-- Whatever the first compilation yields from a number, the second yields from
the same number up to `R`, and it leaves the same one. -/
def MatchedBy (R : α → β → Prop) (m : Compile α) (m' : Compile β) : Prop :=
  ∀ n a k, m.Yields n a k → ∃ b, m'.Yields n b k ∧ R a b

theorem MatchedBy.refl {R : α → α → Prop} (h : ∀ a, R a a) (m : Compile α) :
    MatchedBy R m m := by
  intro n a k ha
  exact ⟨a, ha, h a⟩

theorem matchedBy_pure {R : α → β → Prop} {a : α} {b : β} (h : R a b) :
    MatchedBy R (pure a) (pure b) := by
  intro n a' k ha
  obtain ⟨rfl, rfl⟩ := yields_pure.mp ha
  exact ⟨b, yields_pure.mpr ⟨rfl, rfl⟩, h⟩

theorem matchedBy_throw {R : α → β → Prop} {e : Rejection} {m' : Compile β} :
    MatchedBy R (throw e) m' := by
  intro n a k ha
  exact absurd ha not_yields_throw

theorem matchedBy_lift {R : α → β → Prop} {x : Except Rejection α} {y : Except Rejection β}
    (h : ∀ a, x = .ok a → ∃ b, y = .ok b ∧ R a b) : MatchedBy R (liftM x) (liftM y) := by
  intro n a k ha
  obtain ⟨hx, rfl⟩ := yields_lift.mp ha
  obtain ⟨b, hy, hab⟩ := h a hx
  exact ⟨b, yields_lift.mpr ⟨hy, rfl⟩, hab⟩

theorem MatchedBy.bind {R : α → β → Prop} {S : γ → δ → Prop} {m : Compile α} {m' : Compile β}
    {f : α → Compile γ} {f' : β → Compile δ} (hm : MatchedBy R m m')
    (hf : ∀ a b, R a b → MatchedBy S (f a) (f' b)) : MatchedBy S (m >>= f) (m' >>= f') := by
  intro n c k hc
  obtain ⟨a, j, ha, hc⟩ := yields_bind.mp hc
  obtain ⟨b, hb, hab⟩ := hm n a j ha
  obtain ⟨d, hd, hcd⟩ := hf a b hab j c k hc
  exact ⟨d, yields_bind.mpr ⟨b, j, hb, hd⟩, hcd⟩

theorem MatchedBy.mapM {R : β → γ → Prop} {f : α → Compile β} {f' : α → Compile γ} {as : List α}
    (h : ∀ a ∈ as, MatchedBy R (f a) (f' a)) :
    MatchedBy (List.Forall₂ R) (as.mapM f) (as.mapM f') := by
  induction as with
  | nil => exact matchedBy_pure .nil
  | cons a as ih =>
      rw [List.mapM_cons, List.mapM_cons]
      refine (h a List.mem_cons_self).bind fun b c hbc => ?_
      refine (ih fun x hx => h x (List.mem_cons_of_mem _ hx)).bind fun bs cs hbcs => ?_
      exact matchedBy_pure (.cons hbc hbcs)

theorem MatchedBy.lambda {R : Term → Term → Prop}
    (hfunc : ∀ {ps t u}, R t u → R (.func ps t) (.func ps u)) {body body' : Term → Compile Term}
    (h : ∀ n, MatchedBy R (body (.var n)) (body' (.var n))) :
    MatchedBy R (lambda body) (lambda body') := by
  intro n f k hf
  obtain ⟨t, ht, rfl⟩ := yields_lambda.mp hf
  obtain ⟨u, hu, htu⟩ := h n (n + 1) t k ht
  exact ⟨.func [n] u, yields_lambda.mpr ⟨u, hu, rfl⟩, hfunc htu⟩

theorem yieldsEach_map {f : β → Compile γ} {g : α → β} {as : List α} {cs : List γ} {n k : Nat} :
    YieldsEach f (as.map g) n cs k ↔ YieldsEach (fun a => f (g a)) as n cs k := by
  rw [← yields_mapM, ← yields_mapM, List.mapM_map]
  rfl

/-- Where no item draws a number, none is drawn for all of them. -/
theorem exists_yieldsEach {R : α → β → Prop} {f : α → Compile β} {as : List α} {n : Nat}
    (h : ∀ a ∈ as, ∃ b, (f a).Yields n b n ∧ R a b) :
    ∃ bs, YieldsEach f as n bs n ∧ List.Forall₂ R as bs := by
  induction as with
  | nil => exact ⟨[], .nil, .nil⟩
  | cons a as ih =>
      rw [List.forall_mem_cons] at h
      obtain ⟨b, hb, hab⟩ := h.1
      obtain ⟨bs, hbs, hall⟩ := ih h.2
      exact ⟨b :: bs, .cons hb hbs, .cons hab hall⟩

/-- Where no number is drawn, an item does not see the items before it. -/
theorem yieldsEach_iff_of_drawsNothing {f : α → Compile β} (hf : ∀ a, (f a).DrawsNothing)
    {as : List α} {bs : List β} {n k : Nat} :
    YieldsEach f as n bs k ↔ List.Forall₂ (fun a b => (f a).outcome = .ok b) as bs ∧ k = n := by
  constructor
  · intro h
    induction h with
    | nil => exact ⟨.nil, rfl⟩
    | cons head _ ih =>
        obtain ⟨hb, rfl⟩ := (hf _).yields_iff.mp head
        exact ⟨.cons hb ih.1, ih.2⟩
  · rintro ⟨h, rfl⟩
    induction h with
    | nil => exact .nil
    | cons hb _ ih => exact .cons ((hf _).yields_iff.mpr ⟨hb, rfl⟩) ih

/-! ## One compilation that maps another -/

section

variable {α' β' : Type}

theorem bind_eq_map {φ : α → α'} {ψ : β → β'} {m : Compile α} {m' : Compile α'}
    {f : α → Compile β} {f' : α' → Compile β'} (hm : m' = φ <$> m)
    (hf : ∀ a, f' (φ a) = ψ <$> f a) : (m' >>= f') = ψ <$> (m >>= f) := by
  rw [hm, bind_map_left, map_bind]
  exact bind_congr hf

theorem mapM_eq_map {φ : β → β'} {f : α → Compile β} {f' : α → Compile β'} {as : List α}
    (h : ∀ a ∈ as, f' a = φ <$> f a) : as.mapM f' = List.map φ <$> as.mapM f := by
  induction as with
  | nil => rfl
  | cons a as ih =>
      rw [List.forall_mem_cons] at h
      rw [List.mapM_cons, List.mapM_cons]
      refine bind_eq_map h.1 fun b => bind_eq_map (ih h.2) fun bs => ?_
      rw [map_pure, List.map_cons]

theorem forall₂_map_eq_map {φ : α → γ} {ψ : β → γ} {as : List α} {bs : List β} :
    List.Forall₂ (fun a b => φ a = ψ b) as bs ↔ as.map φ = bs.map ψ := by
  rw [← List.forall₂_eq_eq_eq, List.forall₂_map_left_iff, List.forall₂_map_right_iff]

theorem forall₂_eq_map {φ : α → β} {as : List α} {bs : List β} :
    List.Forall₂ (fun a b => b = φ a) as bs ↔ bs = as.map φ := by
  rw [eq_comm, ← List.forall₂_eq_eq_eq, List.forall₂_map_left_iff]
  simp only [eq_comm]

theorem lift_map (φ : α → β) (x : Except Rejection α) :
    (liftM (x.map φ) : Compile β) = φ <$> (liftM x : Compile α) := by
  cases x <;> rfl

theorem throw_eq_map (φ : α → β) (e : Rejection) :
    (throw e : Compile β) = φ <$> (throw e : Compile α) := rfl

end

end DocQuery.Compile
