import DocQuery.Compile

/-!
# Runs of compilations

`Yields` is the successful half of a run: from a free number to a value and the
next free number. Its equations take a compilation apart step by step, so that
no later proof opens the monad. `Grows` is what also a rejected run keeps: the
counter never goes back. A compilation that `DrawsNothing` runs alike from every number.
-/

namespace DocQuery.Compile

variable {α β γ : Type}

/-- Started with `n` as the next free number, the compilation yields `a` and
leaves `k`. -/
def Yields (m : Compile α) (n : Nat) (a : α) (k : Nat) : Prop :=
  m.runFrom n = (.ok a, k)

theorem runFrom_lift (x : Except Rejection α) (n : Nat) :
    (liftM x : Compile α).runFrom n = (x, n) := by
  cases x <;> rfl

@[simp] theorem yields_pure {a b : α} {n k : Nat} :
    (pure a : Compile α).Yields n b k ↔ b = a ∧ k = n := by
  rw [Yields, runFrom_pure, Prod.mk.injEq, Except.ok.injEq]
  exact and_congr eq_comm eq_comm

@[simp] theorem not_yields_throw {e : Rejection} {a : α} {n k : Nat} :
    ¬ (throw e : Compile α).Yields n a k := by
  rw [Yields, runFrom_throw]
  simp

@[simp] theorem yields_bind {m : Compile α} {f : α → Compile β} {n k : Nat} {b : β} :
    (m >>= f).Yields n b k ↔ ∃ a j, m.Yields n a j ∧ (f a).Yields j b k := by
  simp only [Yields, runFrom_bind]
  rcases hm : m.runFrom n with ⟨_ | a, j⟩
  · simp
  · constructor
    · intro h
      exact ⟨a, j, rfl, h⟩
    · rintro ⟨a', j', h, hf⟩
      obtain ⟨rfl, rfl⟩ : a = a' ∧ j = j' := by simpa using h
      exact hf

@[simp] theorem yields_map {m : Compile α} {g : α → β} {n k : Nat} {b : β} :
    (g <$> m).Yields n b k ↔ ∃ a, m.Yields n a k ∧ b = g a := by
  rw [map_eq_pure_bind, yields_bind]
  constructor
  · rintro ⟨a, j, ha, hb⟩
    obtain ⟨rfl, rfl⟩ := yields_pure.mp hb
    exact ⟨a, ha, rfl⟩
  · rintro ⟨a, ha, rfl⟩
    exact ⟨a, k, ha, yields_pure.mpr ⟨rfl, rfl⟩⟩

@[simp] theorem yields_lift {x : Except Rejection α} {a : α} {n k : Nat} :
    (liftM x : Compile α).Yields n a k ↔ x = .ok a ∧ k = n := by
  rw [Yields, runFrom_lift, Prod.mk.injEq]
  exact and_congr_right fun _ => eq_comm

@[simp] theorem yields_fresh {n v k : Nat} : fresh.Yields n v k ↔ v = n ∧ k = n + 1 := by
  rw [Yields, runFrom_fresh, Prod.mk.injEq, Except.ok.injEq]
  exact and_congr eq_comm eq_comm

theorem yields_lambda {body : Term → Compile Term} {n k : Nat} {f : Term} :
    (lambda body).Yields n f k ↔
      ∃ t, (body (.var n)).Yields (n + 1) t k ∧ f = .func [n] t := by
  simp only [lambda, yields_bind, yields_fresh, yields_pure]
  constructor
  · rintro ⟨v, m, ⟨rfl, rfl⟩, t, j, ht, rfl, rfl⟩
    exact ⟨t, ht, rfl⟩
  · rintro ⟨t, ht, rfl⟩
    exact ⟨n, n + 1, ⟨rfl, rfl⟩, t, k, ht, rfl, rfl⟩

theorem yields_lambda₂ {body : Term → Term → Compile Term} {n k : Nat} {f : Term} :
    (lambda₂ body).Yields n f k ↔
      ∃ t, (body (.var n) (.var (n + 1))).Yields (n + 2) t k ∧ f = .func [n, n + 1] t := by
  simp only [lambda₂, yields_bind, yields_fresh, yields_pure]
  constructor
  · rintro ⟨a, m, ⟨rfl, rfl⟩, b, j, ⟨rfl, rfl⟩, t, i, ht, rfl, rfl⟩
    exact ⟨t, ht, rfl⟩
  · rintro ⟨t, ht, rfl⟩
    exact ⟨n, n + 1, ⟨rfl, rfl⟩, n + 1, n + 2, ⟨rfl, rfl⟩, t, k, ht, rfl, rfl⟩

theorem outcome_eq_ok {m : Compile α} {a : α} : m.outcome = .ok a ↔ ∃ k, m.Yields 1 a k := by
  simp only [outcome, Yields]
  constructor
  · intro h
    exact ⟨_, Prod.ext h rfl⟩
  · rintro ⟨k, h⟩
    rw [h]

theorem runFrom_map (φ : α → β) (m : Compile α) (n : Nat) :
    (φ <$> m).runFrom n = ((m.runFrom n).1.map φ, (m.runFrom n).2) := by
  rw [map_eq_pure_bind, runFrom_bind]
  rcases m.runFrom n with ⟨_ | _, _⟩ <;> rfl

theorem outcome_map (φ : α → β) (m : Compile α) : (φ <$> m).outcome = m.outcome.map φ := by
  rw [outcome, outcome, runFrom_map]

theorem outcome_bind_of_error {m : Compile α} {f : α → Compile β} {r : Rejection}
    (h : m.outcome = .error r) : (m >>= f).outcome = .error r := by
  rw [outcome] at h ⊢
  rw [runFrom_bind]
  rcases hm : m.runFrom 1 with ⟨_ | _, _⟩
  · rw [hm] at h
    cases h
    rfl
  · rw [hm] at h
    cases h

/-! ## One after another -/

/-- The runs of one compilation for each item, in order. -/
inductive YieldsEach (f : α → Compile β) : List α → Nat → List β → Nat → Prop
  | nil {n : Nat} : YieldsEach f [] n [] n
  | cons {a : α} {as : List α} {b : β} {bs : List β} {n m k : Nat}
      (head : (f a).Yields n b m) (tail : YieldsEach f as m bs k) :
      YieldsEach f (a :: as) n (b :: bs) k

theorem yieldsEach_nil {f : α → Compile β} {n k : Nat} {bs : List β} :
    YieldsEach f [] n bs k ↔ bs = [] ∧ k = n := by
  constructor
  · intro h
    cases h
    exact ⟨rfl, rfl⟩
  · rintro ⟨rfl, rfl⟩
    exact .nil

theorem yieldsEach_cons {f : α → Compile β} {a : α} {as : List α} {n k : Nat} {bs : List β} :
    YieldsEach f (a :: as) n bs k ↔
      ∃ b m rest, (f a).Yields n b m ∧ YieldsEach f as m rest k ∧ bs = b :: rest := by
  constructor
  · intro h
    cases h with
    | cons head tail => exact ⟨_, _, _, head, tail, rfl⟩
  · rintro ⟨b, m, rest, head, tail, rfl⟩
    exact .cons head tail

theorem yieldsEach_append {f : α → Compile β} {as as' : List α} {n k : Nat} {bs : List β} :
    YieldsEach f (as ++ as') n bs k ↔
      ∃ xs ys m, YieldsEach f as n xs m ∧ YieldsEach f as' m ys k ∧ bs = xs ++ ys := by
  induction as generalizing n bs with
  | nil =>
      constructor
      · intro h
        exact ⟨[], bs, n, .nil, h, rfl⟩
      · rintro ⟨xs, ys, m, hxs, hys, rfl⟩
        obtain ⟨rfl, rfl⟩ := yieldsEach_nil.mp hxs
        exact hys
  | cons a as ih =>
      rw [List.cons_append, yieldsEach_cons]
      constructor
      · rintro ⟨b, i, rest, head, tail, rfl⟩
        obtain ⟨xs, ys, m, hxs, hys, rfl⟩ := ih.mp tail
        exact ⟨b :: xs, ys, m, .cons head hxs, hys, rfl⟩
      · rintro ⟨xs, ys, m, hxs, hys, rfl⟩
        obtain ⟨b, i, rest, head, tail, rfl⟩ := yieldsEach_cons.mp hxs
        exact ⟨b, i, rest ++ ys, head, ih.mpr ⟨rest, ys, m, tail, hys, rfl⟩, rfl⟩

theorem yieldsEach_eq_singleton {f : α → Compile β} {as : List α} {n k : Nat} {b : β} :
    YieldsEach f as n [b] k ↔ ∃ a, as = [a] ∧ (f a).Yields n b k := by
  constructor
  · intro h
    cases h with
    | cons head tail =>
        cases tail
        exact ⟨_, rfl, head⟩
  · rintro ⟨a, rfl, h⟩
    exact .cons h .nil

@[simp] theorem yields_mapM {f : α → Compile β} {as : List α} {bs : List β} {n k : Nat} :
    (as.mapM f).Yields n bs k ↔ YieldsEach f as n bs k := by
  induction as generalizing bs n with
  | nil => rw [List.mapM_nil, yields_pure, yieldsEach_nil]
  | cons a as ih =>
      rw [List.mapM_cons, yieldsEach_cons]
      simp only [yields_bind, yields_pure]
      constructor
      · rintro ⟨b, m, head, rest, j, tail, rfl, rfl⟩
        exact ⟨b, m, rest, head, ih.mp tail, rfl⟩
      · rintro ⟨b, m, rest, head, tail, rfl⟩
        exact ⟨b, m, head, rest, k, ih.mpr tail, rfl, rfl⟩

theorem YieldsEach.length_eq {f : α → Compile β} {as : List α} {bs : List β} {n k : Nat}
    (h : YieldsEach f as n bs k) : bs.length = as.length := by
  induction h with
  | nil => rfl
  | cons _ _ ih => rw [List.length_cons, List.length_cons, ih]

theorem YieldsEach.map_eq {φ : β → γ} {ψ : α → γ} {f : α → Compile β} {as : List α}
    {bs : List β} {n k : Nat} (h : YieldsEach f as n bs k)
    (hone : ∀ a ∈ as, ∀ i b j, (f a).Yields i b j → φ b = ψ a) : bs.map φ = as.map ψ := by
  induction h with
  | nil => rfl
  | cons head _ ih =>
      rw [List.forall_mem_cons] at hone
      rw [List.map_cons, List.map_cons, hone.1 _ _ _ head, ih hone.2]

theorem YieldsEach.exists_of_getElem? {f : α → Compile β} {as : List α} {bs : List β} {n k : Nat}
    (h : YieldsEach f as n bs k) {i : Nat} {a : α} (ha : as[i]? = some a) :
    ∃ b m j, bs[i]? = some b ∧ (f a).Yields m b j := by
  induction h generalizing i with
  | nil => simp at ha
  | cons head _ ih =>
      cases i with
      | zero =>
          obtain rfl := Option.some.inj ha
          exact ⟨_, _, _, rfl, head⟩
      | succ i => exact ih ha

/-! ## Acceptance -/

/-- The compilation succeeds, from whatever number, exactly when `P` holds. -/
def AcceptedIff (m : Compile α) (P : Prop) : Prop := ∀ n, (∃ a k, m.Yields n a k) ↔ P

theorem AcceptedIff.congr {m : Compile α} {P Q : Prop} (h : m.AcceptedIff P) (hPQ : P ↔ Q) :
    m.AcceptedIff Q := fun n => (h n).trans hPQ

theorem acceptedIff_pure (a : α) : (pure a : Compile α).AcceptedIff True := fun n => by
  simp

theorem acceptedIff_throw (e : Rejection) : (throw e : Compile α).AcceptedIff False := fun n => by
  simp

theorem acceptedIff_lift (x : Except Rejection α) :
    (liftM x : Compile α).AcceptedIff (∃ a, x = .ok a) := fun n => by
  simp

/-- What follows is judged on the values that can come. -/
theorem AcceptedIff.bind {m : Compile α} {f : α → Compile β} {P Q : Prop}
    (hm : m.AcceptedIff P) (hf : ∀ a n k, m.Yields n a k → (f a).AcceptedIff Q) :
    (m >>= f).AcceptedIff (P ∧ Q) := by
  intro n
  simp only [yields_bind]
  constructor
  · rintro ⟨b, k, a, j, ha, hb⟩
    exact ⟨(hm n).mp ⟨a, j, ha⟩, (hf a n j ha j).mp ⟨b, k, hb⟩⟩
  · rintro ⟨hP, hQ⟩
    obtain ⟨a, j, ha⟩ := (hm n).mpr hP
    obtain ⟨b, k, hb⟩ := (hf a n j ha j).mpr hQ
    exact ⟨b, k, a, j, ha, hb⟩

/-- What follows never fails. -/
theorem AcceptedIff.bind_pure {m : Compile α} {g : α → β} {P : Prop} (hm : m.AcceptedIff P) :
    (m >>= fun a => pure (g a)).AcceptedIff P :=
  (hm.bind fun _ _ _ _ => acceptedIff_pure _).congr (and_iff_left trivial)

theorem AcceptedIff.lambda {body : Term → Compile Term} {P : Prop}
    (h : ∀ t, (body t).AcceptedIff P) : (lambda body).AcceptedIff P := by
  intro n
  simp only [yields_lambda]
  constructor
  · rintro ⟨f, k, t, ht, -⟩
    exact (h (.var n) (n + 1)).mp ⟨t, k, ht⟩
  · intro hP
    obtain ⟨t, k, ht⟩ := (h (.var n) (n + 1)).mpr hP
    exact ⟨_, k, t, ht, rfl⟩

theorem AcceptedIff.lambda₂ {body : Term → Term → Compile Term} {P : Prop}
    (h : ∀ s t, (body s t).AcceptedIff P) : (lambda₂ body).AcceptedIff P := by
  intro n
  simp only [yields_lambda₂]
  constructor
  · rintro ⟨f, k, t, ht, -⟩
    exact (h _ _ _).mp ⟨t, k, ht⟩
  · intro hP
    obtain ⟨t, k, ht⟩ := (h (.var n) (.var (n + 1)) (n + 2)).mpr hP
    exact ⟨_, k, t, ht, rfl⟩

theorem AcceptedIff.mapM {f : α → Compile β} {P : α → Prop} {as : List α}
    (h : ∀ a ∈ as, (f a).AcceptedIff (P a)) : (as.mapM f).AcceptedIff (∀ a ∈ as, P a) := by
  induction as with
  | nil =>
      rw [List.mapM_nil]
      exact (acceptedIff_pure _).congr (by simp)
  | cons a as ih =>
      rw [List.mapM_cons]
      have htail := ih fun x hx => h x (List.mem_cons_of_mem _ hx)
      have hall := (h a List.mem_cons_self).bind fun b _ _ _ =>
        htail.bind_pure (g := fun bs => b :: bs)
      exact hall.congr List.forall_mem_cons.symm

/-! ## The counter -/

/-- A run, rejected or not, leaves the counter no lower than it found it. -/
def Grows (m : Compile α) : Prop := ∀ n, n ≤ (m.runFrom n).2

theorem Grows.le {m : Compile α} (h : m.Grows) {n k : Nat} {a : α} (hm : m.Yields n a k) :
    n ≤ k := by
  have hn := h n
  rwa [hm] at hn

theorem grows_pure (a : α) : (pure a : Compile α).Grows := fun n => Nat.le_refl n

theorem grows_throw (e : Rejection) : (throw e : Compile α).Grows := fun n => Nat.le_refl n

theorem grows_lift (x : Except Rejection α) : (liftM x : Compile α).Grows := fun n =>
  Nat.le_of_eq (congrArg Prod.snd (runFrom_lift x n)).symm

theorem grows_fresh : fresh.Grows := fun n => Nat.le_succ n

theorem Grows.bind {m : Compile α} {f : α → Compile β} (hm : m.Grows) (hf : ∀ a, (f a).Grows) :
    (m >>= f).Grows := by
  intro n
  have hn := hm n
  rw [runFrom_bind]
  rcases h : m.runFrom n with ⟨_ | a, j⟩
  · rwa [h] at hn
  · rw [h] at hn
    exact Nat.le_trans hn (hf a j)

theorem Grows.lambda {body : Term → Compile Term} (h : ∀ t, (body t).Grows) :
    (lambda body).Grows :=
  grows_fresh.bind fun _ => (h _).bind fun _ => grows_pure _

theorem Grows.lambda₂ {body : Term → Term → Compile Term} (h : ∀ s t, (body s t).Grows) :
    (lambda₂ body).Grows :=
  grows_fresh.bind fun _ => grows_fresh.bind fun _ => (h _ _).bind fun _ => grows_pure _

theorem Grows.mapM {f : α → Compile β} {as : List α} (h : ∀ a ∈ as, (f a).Grows) :
    (as.mapM f).Grows := by
  induction as with
  | nil => exact grows_pure []
  | cons a as ih =>
      rw [List.mapM_cons]
      refine (h a List.mem_cons_self).bind fun b => ?_
      refine (ih fun x hx => h x (List.mem_cons_of_mem _ hx)).bind fun bs => ?_
      exact grows_pure _

theorem YieldsEach.le {f : α → Compile β} {as : List α} {bs : List β} {n k : Nat}
    (h : YieldsEach f as n bs k) (hf : ∀ a ∈ as, (f a).Grows) : n ≤ k := by
  induction h with
  | nil => exact Nat.le_refl _
  | cons head _ ih =>
      rw [List.forall_mem_cons] at hf
      exact Nat.le_trans (hf.1.le head) (ih hf.2)

/-- What holds of a value at the number that its run leaves, and at all later
ones, holds of all the values in the end. -/
theorem YieldsEach.forall_upTo {P : Nat → β → Prop} {f : α → Compile β} {as : List α}
    {bs : List β} {n k : Nat} (h : YieldsEach f as n bs k)
    (hP : ∀ {i j b}, i ≤ j → P i b → P j b) (hf : ∀ a ∈ as, (f a).Grows)
    (hone : ∀ a ∈ as, ∀ i b j, n ≤ i → (f a).Yields i b j → P j b) : ∀ b ∈ bs, P k b := by
  induction h with
  | nil => simp
  | cons head tail ih =>
      rw [List.forall_mem_cons] at hf hone
      have hnm := hf.1.le head
      rw [List.forall_mem_cons]
      refine ⟨hP (tail.le hf.2) (hone.1 _ _ _ (Nat.le_refl _) head), ?_⟩
      -- the later runs start further on, where the hypothesis still applies
      exact ih hf.2 fun a ha i b j hi => hone.2 a ha i b j (Nat.le_trans hnm hi)

/-! ## No numbers drawn -/

/-- Every run keeps the counter, rejected or not, and they all end alike. -/
def DrawsNothing (m : Compile α) : Prop := ∀ n, m.runFrom n = (m.outcome, n)

theorem drawsNothing_lift (x : Except Rejection α) : (liftM x : Compile α).DrawsNothing := by
  intro n
  rw [outcome, runFrom_lift, runFrom_lift]

theorem drawsNothing_pure (a : α) : (pure a : Compile α).DrawsNothing := fun _ => rfl

theorem drawsNothing_throw (e : Rejection) : (throw e : Compile α).DrawsNothing := fun _ => rfl

theorem DrawsNothing.bind {m : Compile α} {f : α → Compile β} (hm : m.DrawsNothing)
    (hf : ∀ a, (f a).DrawsNothing) : (m >>= f).DrawsNothing := by
  intro n
  rw [outcome, runFrom_bind, runFrom_bind, hm n, hm 1]
  cases m.outcome with
  | error e => rfl
  | ok a => exact hf a n

theorem DrawsNothing.mapM {f : α → Compile β} {as : List α} (h : ∀ a ∈ as, (f a).DrawsNothing) :
    (as.mapM f).DrawsNothing := by
  induction as with
  | nil => exact drawsNothing_pure []
  | cons a as ih =>
      rw [List.forall_mem_cons] at h
      rw [List.mapM_cons]
      refine h.1.bind fun b => ?_
      exact (ih h.2).bind fun bs => drawsNothing_pure _

theorem DrawsNothing.yields_iff {m : Compile α} (h : m.DrawsNothing) {n k : Nat} {a : α} :
    m.Yields n a k ↔ m.outcome = .ok a ∧ k = n := by
  rw [Yields, h n, Prod.mk.injEq, eq_comm (a := n)]

end DocQuery.Compile
