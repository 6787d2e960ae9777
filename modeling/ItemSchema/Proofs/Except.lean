import Mathlib.Data.List.Forall2

/-! Successful results of combined steps come from successful results of the steps. -/
namespace ItemSchema

@[simp] theorem except_pure (a : α) : (pure a : Except ε α) = .ok a :=
  rfl

@[simp] theorem except_throw (e : ε) : (throw e : Except ε α) = .error e :=
  rfl

@[simp] theorem bind_eq_ok {x : Except ε α} {f : α → Except ε β} :
    (x >>= f) = .ok b ↔ ∃ a, x = .ok a ∧ f a = .ok b := by
  cases x with
  | error e => simp [bind, Except.bind]
  | ok a => simp [bind, Except.bind]

@[simp] theorem map_eq_ok {x : Except ε α} {f : α → β} :
    f <$> x = .ok b ↔ ∃ a, x = .ok a ∧ f a = b := by
  cases x with
  | error e => simp [Functor.map, Except.map]
  | ok a => simp [Functor.map, Except.map]

theorem bind_eq_error {x : Except ε α} {f : α → Except ε β} :
    (x >>= f) = .error e ↔ x = .error e ∨ ∃ a, x = .ok a ∧ f a = .error e := by
  cases x with
  | error e => simp [bind, Except.bind]
  | ok a => simp [bind, Except.bind]

theorem map_eq_error {x : Except ε α} {f : α → β} : f <$> x = .error e ↔ x = .error e := by
  cases x with
  | error e => simp [Functor.map, Except.map]
  | ok a => simp [Functor.map, Except.map]

theorem mapError_eq_ok {x : Except ε α} {f : ε → δ} : x.mapError f = .ok a ↔ x = .ok a := by
  cases x with
  | error e => simp [Except.mapError]
  | ok b => simp [Except.mapError]

theorem map_some_inj {x y : Except ε α} : some <$> x = some <$> y ↔ x = y := by
  cases x <;> cases y <;> simp [Functor.map, Except.map]

theorem mapM_cons_eq_ok {f : α → Except ε β} {x : α} {xs : List α} {ys : List β} :
    (x :: xs).mapM f = .ok ys ↔ ∃ y rest, f x = .ok y ∧ xs.mapM f = .ok rest ∧ ys = y :: rest := by
  simp only [List.mapM_cons, bind_eq_ok, except_pure, Except.ok.injEq]
  constructor
  · rintro ⟨y, first, rest, others, rfl⟩
    exact ⟨y, rest, first, others, rfl⟩
  · rintro ⟨y, rest, first, others, rfl⟩
    exact ⟨y, first, rest, others, rfl⟩

theorem mapM_eq_ok_iff_forall₂ {f : α → Except ε β} {xs : List α} {ys : List β} :
    xs.mapM f = .ok ys ↔ List.Forall₂ (fun x y => f x = .ok y) xs ys := by
  induction xs generalizing ys with
  | nil =>
    simp only [List.mapM_nil, except_pure, Except.ok.injEq, List.forall₂_nil_left_iff]
    exact eq_comm
  | cons x xs ih => simp only [mapM_cons_eq_ok, List.forall₂_cons_left_iff, ih, exists_and_left]

theorem mapM_length {f : α → Except ε β} {xs : List α} {ys : List β}
    (mapped : xs.mapM f = .ok ys) : ys.length = xs.length := by
  induction xs generalizing ys with
  | nil =>
    cases mapped
    rfl
  | cons x xs ih =>
    obtain ⟨y, rest, _, others, rfl⟩ := mapM_cons_eq_ok.mp mapped
    rw [List.length_cons, ih others, List.length_cons]

/-- A step that undoes a function undoes it on every element. -/
theorem mapM_eq_ok_iff {f : α → Except ε β} {g : β → α}
    (each : ∀ x y, f x = .ok y ↔ x = g y) {xs : List α} {ys : List β} :
    xs.mapM f = .ok ys ↔ xs = ys.map g := by
  induction xs generalizing ys with
  | nil => cases ys <;> simp
  | cons x xs ih =>
    simp only [mapM_cons_eq_ok, each, ih]
    constructor
    · rintro ⟨y, rest, rfl, rfl, rfl⟩
      rfl
    · cases ys with
      | nil => simp
      | cons y rest =>
        intro same
        obtain ⟨first, others⟩ := List.cons.inj same
        exact ⟨y, rest, first, others, rfl⟩

theorem mapM_eq_ok_of_map {f : α → Except ε β} {g : α → β} {xs : List α}
    (each : ∀ x ∈ xs, f x = .ok (g x)) : xs.mapM f = .ok (xs.map g) := by
  induction xs with
  | nil => rfl
  | cons x xs ih =>
    rw [mapM_cons_eq_ok]
    exact ⟨g x, xs.map g, each x List.mem_cons_self,
      ih fun y member => each y (List.mem_cons_of_mem _ member), rfl⟩

/-- A step that gives what a function gives does so on every element. -/
theorem eq_map_of_mapM {f : α → Except ε β} {g : α → β} (each : ∀ x y, f x = .ok y → y = g x)
    {xs : List α} {ys : List β} (mapped : xs.mapM f = .ok ys) : ys = xs.map g := by
  induction xs generalizing ys with
  | nil =>
    cases mapped
    rfl
  | cons x xs ih =>
    obtain ⟨y, rest, first, others, rfl⟩ := mapM_cons_eq_ok.mp mapped
    rw [List.map_cons, each x y first, ih others]

theorem mapM_map_result (f : α → Except ε β) (g : β → γ) (xs : List α) :
    xs.mapM (fun x => g <$> f x) = List.map g <$> xs.mapM f := by
  induction xs with
  | nil => rfl
  | cons x xs ih =>
    rw [List.mapM_cons, List.mapM_cons, ih]
    cases f x with
    | error e => rfl
    | ok y => cases xs.mapM f <;> rfl

theorem exists_mapM_ok_iff {f : α → Except ε β} {xs : List α} :
    (∃ ys, xs.mapM f = .ok ys) ↔ ∀ x ∈ xs, ∃ y, f x = .ok y := by
  induction xs with
  | nil => simp
  | cons x xs ih =>
    simp only [mapM_cons_eq_ok, List.forall_mem_cons, ← ih]
    constructor
    · rintro ⟨_, y, rest, first, others, rfl⟩
      exact ⟨⟨y, first⟩, rest, others⟩
    · rintro ⟨⟨y, first⟩, rest, others⟩
      exact ⟨_, y, rest, first, others, rfl⟩

/-- Every result is that of an element of the list. -/
theorem mapM_mem {f : α → Except ε β} {xs : List α} {ys : List β} (mapped : xs.mapM f = .ok ys)
    (member : y ∈ ys) : ∃ x ∈ xs, f x = .ok y := by
  induction xs generalizing ys with
  | nil =>
    cases mapped
    contradiction
  | cons x xs ih =>
    obtain ⟨first, rest, here, others, rfl⟩ := mapM_cons_eq_ok.mp mapped
    rcases List.mem_cons.mp member with rfl | member
    · exact ⟨x, List.mem_cons_self, here⟩
    · obtain ⟨u, inside, made⟩ := ih others member
      exact ⟨u, List.mem_cons_of_mem _ inside, made⟩

/-- Rows that are gone through one after the other are gone through like the row of all of them. -/
theorem flatten_mapM (f : α → Except ε β) (g : κ → List α) (ks : List κ) :
    List.flatten <$> ks.mapM (fun k => (g k).mapM f) = (ks.flatMap g).mapM f := by
  induction ks with
  | nil => rfl
  | cons k ks ih =>
    rw [List.flatMap_cons, List.mapM_append, ← ih, List.mapM_cons]
    cases (g k).mapM f with
    | error e => rfl
    | ok first =>
      cases ks.mapM fun k => (g k).mapM f with
      | error e => rfl
      | ok rest => rfl

/-- The first element that fails decides. -/
theorem mapM_eq_error_iff {f : α → Except ε β} {xs : List α} : xs.mapM f = .error e ↔
    ∃ front x back, xs = front ++ x :: back ∧ (∀ y ∈ front, ∃ v, f y = .ok v) ∧
      f x = .error e := by
  constructor
  · intro failed
    induction xs with
    | nil => contradiction
    | cons x xs ih =>
      rw [List.mapM_cons, bind_eq_error] at failed
      rcases failed with here | ⟨y, made, others⟩
      · exact ⟨[], x, xs, rfl, by simp, here⟩
      · rcases bind_eq_error.mp others with behind | ⟨ys, _, kept⟩
        · obtain ⟨front, u, back, rfl, before, fails⟩ := ih behind
          exact ⟨x :: front, u, back, rfl, List.forall_mem_cons.mpr ⟨⟨y, made⟩, before⟩, fails⟩
        · contradiction
  · rintro ⟨front, x, back, rfl, before, fails⟩
    obtain ⟨ys, mapped⟩ := exists_mapM_ok_iff.mpr before
    rw [List.mapM_append, mapped, List.mapM_cons, fails]
    rfl

/-- Whatever fails in the list, an element of it fails so. -/
theorem mapM_eq_error {f : α → Except ε β} {xs : List α} (failed : xs.mapM f = .error e) :
    ∃ x ∈ xs, f x = .error e := by
  obtain ⟨front, x, back, rfl, _, fails⟩ := mapM_eq_error_iff.mp failed
  exact ⟨x, List.mem_append_right _ List.mem_cons_self, fails⟩

/-- Every result of one step is also the result of another one, which may fail less often. -/
def RefinedBy (x y : Except ε α) : Prop :=
  ∀ result, x = .ok result → y = .ok result

namespace RefinedBy

theorem refl (x : Except ε α) : RefinedBy x x :=
  fun _ same => same

theorem error (e : ε) (y : Except ε α) : RefinedBy (.error e) y := by
  intro result same
  contradiction

theorem bind {x y : Except ε α} {f g : α → Except ε β} (first : RefinedBy x y)
    (next : ∀ a, RefinedBy (f a) (g a)) : RefinedBy (x >>= f) (y >>= g) := by
  intro result made
  obtain ⟨a, here, further⟩ := bind_eq_ok.mp made
  exact bind_eq_ok.mpr ⟨a, first a here, next a result further⟩

theorem map {x y : Except ε α} (refined : RefinedBy x y) (f : α → β) :
    RefinedBy (f <$> x) (f <$> y) := by
  intro result made
  obtain ⟨a, here, same⟩ := map_eq_ok.mp made
  exact map_eq_ok.mpr ⟨a, refined a here, same⟩

theorem mapM {f g : α → Except ε β} (each : ∀ x, RefinedBy (f x) (g x)) (xs : List α) :
    RefinedBy (xs.mapM f) (xs.mapM g) := by
  induction xs with
  | nil => exact refl _
  | cons x xs ih =>
    rw [List.mapM_cons, List.mapM_cons]
    exact (each x).bind fun y => ih.bind fun ys => refl _

end RefinedBy

/-- Both steps fail with one error, or both give something and what they give is related. -/
inductive AlikeBy (R : α → β → Prop) : Except ε α → Except ε β → Prop where
  | ok (related : R a b) : AlikeBy R (.ok a) (.ok b)
  | error (e : ε) : AlikeBy R (.error e) (.error e)

namespace AlikeBy

variable {R : α → β → Prop} {S : γ → δ → Prop} {x : Except ε α} {y : Except ε β}

theorem error_iff (alike : AlikeBy R x y) : x = .error e ↔ y = .error e := by
  cases alike with
  | ok | error => simp

theorem bind {f : α → Except ε γ} {g : β → Except ε δ} (alike : AlikeBy R x y)
    (next : ∀ a b, R a b → AlikeBy S (f a) (g b)) : AlikeBy S (x >>= f) (y >>= g) := by
  cases alike with
  | ok related => exact next _ _ related
  | error e => exact .error e

theorem map {f : α → γ} {g : β → δ} (alike : AlikeBy R x y)
    (next : ∀ a b, R a b → S (f a) (g b)) : AlikeBy S (f <$> x) (g <$> y) := by
  cases alike with
  | ok related => exact .ok (next _ _ related)
  | error e => exact .error e

theorem of_map {f : α → γ} {g : β → δ} (alike : AlikeBy S (f <$> x) (g <$> y)) :
    AlikeBy (fun a b => S (f a) (g b)) x y := by
  cases x with
  | error e =>
    cases y with
    | error e' =>
      cases alike
      exact .error e
    | ok b => cases alike
  | ok a =>
    cases y with
    | error e => cases alike
    | ok b =>
      cases alike with
      | ok related => exact .ok related

end AlikeBy

/-- The step may fail, but not in one of the given ways. -/
def Avoids (bad : ε → Bool) (x : Except ε α) : Prop :=
  ∀ e, x = .error e → bad e = false

namespace Avoids

variable {bad : ε → Bool} {x : Except ε α}

theorem ok (a : α) : Avoids bad (.ok a) := by
  intro e failed
  contradiction

theorem error (good : bad e = false) : Avoids bad (.error e : Except ε α) := by
  intro _ failed
  cases failed
  exact good

theorem bind {f : α → Except ε β} (first : Avoids bad x)
    (next : ∀ a, x = .ok a → Avoids bad (f a)) : Avoids bad (x >>= f) := by
  intro e failed
  rcases bind_eq_error.mp failed with here | ⟨a, made, behind⟩
  · exact first e here
  · exact next a made e behind

theorem map (avoids : Avoids bad x) (f : α → β) : Avoids bad (f <$> x) :=
  fun e failed => avoids e (map_eq_error.mp failed)

theorem mapM {f : α → Except ε β} (each : ∀ a, Avoids bad (f a)) (xs : List α) :
    Avoids bad (xs.mapM f) := by
  intro e failed
  obtain ⟨a, _, fails⟩ := mapM_eq_error failed
  exact each a e fails

end Avoids

end ItemSchema
