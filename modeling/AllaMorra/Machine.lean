import Mathlib.Algebra.BigOperators.Group.List.Basic
import Mathlib.Data.List.Basic
import Mathlib.Data.Option.Basic
import Mathlib.Order.Basic

/-! Deterministic machines whose step may refuse its input. A run consumes a
list of inputs, collects one output per input, and is refused as a whole as
soon as one step is. The rules below pass from one step to every run:
invariants over the recorded history, monotone measures, functional
refinement, and projection of a run onto a part of its inputs. -/

namespace AllaMorra.Machine

variable {σ τ ι ω : Type*}

def run (step : σ → ι → Option (σ × ω)) (s : σ) : List ι → Option (σ × List ω)
  | [] => some (s, [])
  | i :: is => do
    let (m, o) ← step s i
    let (s', os) ← run step m is
    return (s', o :: os)

variable {step : σ → ι → Option (σ × ω)}

@[simp] theorem run_nil (s : σ) : run step s [] = some (s, []) := rfl

theorem run_cons (s : σ) (i : ι) (is : List ι) (s' : σ) (os : List ω) :
    run step s (i :: is) = some (s', os) ↔
      ∃ m o os', step s i = some (m, o) ∧ run step m is = some (s', os') ∧ os = o :: os' := by
  simp only [run, Option.bind_eq_bind, Option.bind_eq_some_iff, Prod.exists, Option.pure_def,
    Option.some.injEq, Prod.mk.injEq]
  constructor
  · rintro ⟨m, o, hstep, s'', os', hrun, rfl, rfl⟩
    exact ⟨m, o, os', hstep, hrun, rfl⟩
  · rintro ⟨m, o, os', hstep, hrun, rfl⟩
    exact ⟨m, o, hstep, s', os', hrun, rfl, rfl⟩

theorem isSome_run_cons (s : σ) (i : ι) (is : List ι) :
    (run step s (i :: is)).isSome ↔ ∃ m o, step s i = some (m, o) ∧ (run step m is).isSome := by
  simp only [Option.isSome_iff_exists, Prod.exists, run_cons]
  constructor
  · rintro ⟨s', os, m, o, os', hi, hrun, -⟩
    exact ⟨m, o, hi, s', os', hrun⟩
  · rintro ⟨m, o, hi, s', os', hrun⟩
    exact ⟨s', o :: os', m, o, os', hi, hrun, rfl⟩

theorem run_append (s : σ) (is js : List ι) (s' : σ) (os : List ω) :
    run step s (is ++ js) = some (s', os) ↔
      ∃ m os₁ os₂, run step s is = some (m, os₁) ∧ run step m js = some (s', os₂) ∧
        os = os₁ ++ os₂ := by
  induction is generalizing s os with
  | nil => simp
  | cons i is ih =>
    simp only [List.cons_append, run_cons, ih]
    constructor
    · rintro ⟨m, o, _, hstep, ⟨m', os₁, os₂, h₁, h₂, rfl⟩, rfl⟩
      exact ⟨m', o :: os₁, os₂, ⟨m, o, os₁, hstep, h₁, rfl⟩, h₂, rfl⟩
    · rintro ⟨m', _, os₂, ⟨m, o, os₁, hstep, h₁, rfl⟩, h₂, rfl⟩
      exact ⟨m, o, os₁ ++ os₂, hstep, ⟨m', os₁, os₂, h₁, h₂, rfl⟩, rfl⟩

theorem run_singleton (s : σ) (i : ι) (s' : σ) (os : List ω) :
    run step s [i] = some (s', os) ↔ ∃ o, step s i = some (s', o) ∧ os = [o] := by
  simp [run_cons]

theorem run_split {s : σ} {is : List ι} {s' : σ} {os₁ os₂ : List ω} {o : ω}
    (h : run step s is = some (s', os₁ ++ o :: os₂)) :
    ∃ is₁ i is₂ m m', is = is₁ ++ i :: is₂ ∧ run step s is₁ = some (m, os₁) ∧
      step m i = some (m', o) ∧ run step m' is₂ = some (s', os₂) := by
  induction is generalizing s os₁ with
  | nil => simp at h
  | cons i is ih =>
    obtain ⟨m, o', os', hi, hrun, hos⟩ := (run_cons ..).mp h
    cases os₁ with
    | nil =>
      obtain ⟨rfl, rfl⟩ := List.cons.inj hos
      exact ⟨[], i, is, s, m, rfl, rfl, hi, hrun⟩
    | cons o₁ os₁ =>
      obtain ⟨rfl, rfl⟩ := List.cons.inj hos
      obtain ⟨is₁, j, is₂, n, n', rfl, h₁, hj, h₂⟩ := ih hrun
      exact ⟨i :: is₁, j, is₂, n, n', rfl, (run_cons ..).mpr ⟨m, o₁, os₁, hi, h₁, rfl⟩, hj, h₂⟩

theorem run_pair (s : σ) (i j : ι) :
    run step s [i, j] = (step s i).bind fun (m, o) =>
      (step m j).map fun (s', o') => (s', [o, o']) := by
  simp only [run, Option.bind_eq_bind, Option.bind_some, Option.pure_def]
  cases step s i with
  | none => rfl
  | some r =>
    obtain ⟨m, o⟩ := r
    simp only [Option.bind_some]
    cases step m j <;> rfl

theorem run_stay {α : Type*} {s : σ} (input : α → ι) (output : α → ω) (Fits : α → Prop)
    {xs : List α} (hstep : ∀ x ∈ xs, ∀ s' o, step s (input x) = some (s', o) ↔
      Fits x ∧ s' = s ∧ o = output x) {s' : σ} {os : List ω} :
    run step s (xs.map input) = some (s', os) ↔
      (∀ x ∈ xs, Fits x) ∧ s' = s ∧ os = xs.map output := by
  induction xs generalizing os with
  | nil => simp [eq_comm]
  | cons x xs ih =>
    have hrest (os : List ω) : run step s (xs.map input) = some (s', os) ↔
        (∀ y ∈ xs, Fits y) ∧ s' = s ∧ os = xs.map output :=
      ih fun y hy => hstep y (List.mem_cons_of_mem _ hy)
    rw [List.map_cons, run_cons, List.forall_mem_cons, List.map_cons]
    constructor
    · rintro ⟨m, o, os', hfirst, hrun, rfl⟩
      obtain ⟨hfits, rfl, rfl⟩ := (hstep x List.mem_cons_self m o).mp hfirst
      obtain ⟨hall, rfl, rfl⟩ := (hrest os').mp hrun
      exact ⟨⟨hfits, hall⟩, rfl, rfl⟩
    · rintro ⟨⟨hfits, hall⟩, rfl, rfl⟩
      exact ⟨_, _, _, (hstep x List.mem_cons_self _ _).mpr ⟨hfits, rfl, rfl⟩,
        (hrest _).mpr ⟨hall, rfl, rfl⟩, rfl⟩

def Reaches (step : σ → ι → Option (σ × ω)) (s s' : σ) : Prop :=
  ∃ is os, run step s is = some (s', os)

theorem Reaches.refl (s : σ) : Reaches step s s := ⟨[], [], rfl⟩

theorem Reaches.of_step {s s' : σ} {i : ι} {o : ω} (h : step s i = some (s', o)) :
    Reaches step s s' := ⟨[i], [o], (run_singleton ..).mpr ⟨o, h, rfl⟩⟩

theorem Reaches.trans {s m s' : σ} (h : Reaches step s m) (h' : Reaches step m s') :
    Reaches step s s' := by
  obtain ⟨is, os, hrun⟩ := h
  obtain ⟨js, os', hrun'⟩ := h'
  exact ⟨is ++ js, os ++ os', (run_append ..).mpr ⟨m, os, os', hrun, hrun', rfl⟩⟩

/-- Each input of a run meets `G` in the state that it finds. -/
def Along (step : σ → ι → Option (σ × ω)) (G : σ → ι → Prop) : σ → List ι → Prop
  | _, [] => True
  | s, i :: is => G s i ∧ ∀ m o, step s i = some (m, o) → Along step G m is

theorem along_append {G : σ → ι → Prop} {s m : σ} {is js : List ι} {os : List ω}
    (h : Along step G s (is ++ js)) (hrun : run step s is = some (m, os)) :
    Along step G s is ∧ Along step G m js := by
  induction is generalizing s os with
  | nil =>
    simp only [run_nil, Option.some.injEq, Prod.mk.injEq] at hrun
    obtain ⟨rfl, -⟩ := hrun
    exact ⟨trivial, h⟩
  | cons i is ih =>
    obtain ⟨n, o, os', hi, hrest, rfl⟩ := (run_cons ..).mp hrun
    refine ⟨⟨h.1, fun n' o' hi' => ?_⟩, (ih (h.2 n o hi) hrest).2⟩
    obtain ⟨rfl, rfl⟩ : n = n' ∧ o = o' := by simpa using hi.symm.trans hi'
    exact (ih (h.2 n o hi) hrest).1

/-- An invariant of the state and of everything output so far, where every input
meets a condition. -/
theorem run_history_along {G : σ → ι → Prop} (Inv : List ω → σ → Prop)
    (hstep : ∀ hist s i s' o, Inv hist s → G s i → step s i = some (s', o) →
      Inv (hist ++ [o]) s')
    (hist : List ω) (s : σ) (is : List ι) (s' : σ) (os : List ω)
    (hinit : Inv hist s) (hG : Along step G s is) (h : run step s is = some (s', os)) :
    Inv (hist ++ os) s' := by
  induction is generalizing hist s os with
  | nil =>
    simp only [run_nil, Option.some.injEq, Prod.mk.injEq] at h
    obtain ⟨rfl, rfl⟩ := h
    simpa using hinit
  | cons i is ih =>
    obtain ⟨m, o, os', hi, hrun, rfl⟩ := (run_cons ..).mp h
    have hm := hstep hist s i m o hinit hG.1 hi
    simpa using ih (hist ++ [o]) m os' hm (hG.2 m o hi) hrun

theorem along_true (s : σ) (is : List ι) : Along step (fun _ _ => True) s is := by
  induction is generalizing s with
  | nil => trivial
  | cons i is ih => exact ⟨trivial, fun m _ _ => ih m⟩

theorem run_history (Inv : List ω → σ → Prop)
    (hstep : ∀ hist s i s' o, Inv hist s → step s i = some (s', o) → Inv (hist ++ [o]) s')
    (hist : List ω) (s : σ) (is : List ι) (s' : σ) (os : List ω)
    (hinit : Inv hist s) (h : run step s is = some (s', os)) : Inv (hist ++ os) s' :=
  run_history_along Inv (fun hist s i s' o hinv _ => hstep hist s i s' o hinv) hist s is s' os
    hinit (along_true s is) h

theorem run_invariant (Inv : σ → Prop)
    (hstep : ∀ s i s' o, Inv s → step s i = some (s', o) → Inv s')
    (s : σ) (is : List ι) (s' : σ) (os : List ω)
    (hinit : Inv s) (h : run step s is = some (s', os)) : Inv s' :=
  run_history (fun _ => Inv) (fun _ => hstep) [] s is s' os hinit h

theorem run_inputs (f : ω → ι) (hstep : ∀ s i s' o, step s i = some (s', o) → f o = i)
    (s : σ) (is : List ι) (s' : σ) (os : List ω) (h : run step s is = some (s', os)) :
    os.map f = is := by
  induction is generalizing s os with
  | nil =>
    simp only [run_nil, Option.some.injEq, Prod.mk.injEq] at h
    obtain ⟨-, rfl⟩ := h
    rfl
  | cons i is ih =>
    obtain ⟨m, o, os', hi, hrun, rfl⟩ := (run_cons ..).mp h
    rw [List.map_cons, hstep s i m o hi, ih m os' hrun]

/-- Each output leaves a mark on the state, which stays, and under which every later
output is related to it. -/
theorem run_pairwise (Mark : σ → ω → Prop) (R : ω → ω → Prop)
    (hnew : ∀ s i s' o, step s i = some (s', o) → Mark s' o)
    (hkeep : ∀ s i s' o a, Mark s a → step s i = some (s', o) → Mark s' a)
    (hrel : ∀ s i s' o a, Mark s a → step s i = some (s', o) → R a o)
    (s : σ) (is : List ι) (s' : σ) (os : List ω) (h : run step s is = some (s', os)) :
    os.Pairwise R :=
  (run_history (fun hist t => hist.Pairwise R ∧ ∀ a ∈ hist, Mark t a)
    (fun hist t i t' o hinv hi => by
      obtain ⟨hpair, hmark⟩ := hinv
      refine ⟨List.pairwise_append.mpr ⟨hpair, List.pairwise_singleton R o, fun a ha b hb => ?_⟩,
        fun a ha => ?_⟩
      · obtain rfl := List.mem_singleton.mp hb
        exact hrel t i t' b a (hmark a ha) hi
      · obtain ha | ha := List.mem_append.mp ha
        · exact hkeep t i t' o a (hmark a ha) hi
        · obtain rfl := List.mem_singleton.mp ha
          exact hnew t i t' a hi)
    [] s is s' os ⟨List.Pairwise.nil, fun _ ha => nomatch ha⟩ h).1

theorem run_mono {β : Type*} [Preorder β] (Inv : σ → Prop) (μ : σ → β)
    (hstep : ∀ s i s' o, Inv s → step s i = some (s', o) → Inv s' ∧ μ s ≤ μ s')
    (s : σ) (is : List ι) (s' : σ) (os : List ω)
    (hinit : Inv s) (h : run step s is = some (s', os)) : μ s ≤ μ s' := by
  have hrun := run_invariant (fun t => Inv t ∧ μ s ≤ μ t)
    (fun t i t' o ht hi => by
      obtain ⟨hinv, hle⟩ := hstep t i t' o ht.1 hi
      exact ⟨hinv, ht.2.trans hle⟩)
    s is s' os ⟨hinit, le_rfl⟩ h
  exact hrun.2

theorem run_flow {β : Type*} [AddCommMonoid β] (μ : σ → β) (into out : ω → β)
    (hstep : ∀ s i s' o, step s i = some (s', o) → μ s' + out o = μ s + into o)
    (s : σ) (is : List ι) (s' : σ) (os : List ω) (h : run step s is = some (s', os)) :
    μ s' + (os.map out).sum = μ s + (os.map into).sum := by
  induction is generalizing s os with
  | nil =>
    simp only [run_nil, Option.some.injEq, Prod.mk.injEq] at h
    obtain ⟨rfl, rfl⟩ := h
    rfl
  | cons i is ih =>
    obtain ⟨m, o, os', hi, hrun, rfl⟩ := (run_cons ..).mp h
    simp only [List.map_cons, List.sum_cons]
    calc μ s' + (out o + (os'.map out).sum)
        = μ s' + (os'.map out).sum + out o := by rw [add_comm (out o), add_assoc]
      _ = μ m + (os'.map into).sum + out o := by rw [ih m os' hrun]
      _ = μ m + out o + (os'.map into).sum := add_right_comm ..
      _ = μ s + into o + (os'.map into).sum := by rw [hstep s i m o hi]
      _ = μ s + (into o + (os'.map into).sum) := add_assoc ..

theorem run_map {stepA : τ → ι → Option (τ × ω)} (f : τ → σ)
    (hstep : ∀ a i, step (f a) i = (stepA a i).map fun r => (f r.1, r.2))
    (a : τ) (is : List ι) :
    run step (f a) is = (run stepA a is).map fun r => (f r.1, r.2) := by
  induction is generalizing a with
  | nil => rfl
  | cons i is ih =>
    simp only [run, hstep]
    cases stepA a i with
    | none => rfl
    | some r =>
      obtain ⟨m, o⟩ := r
      simp only [Option.map_some, Option.bind_eq_bind, Option.bind_some, ih]
      cases run stepA m is <;> rfl

theorem run_equivariant {ι' ω' : Type*} {stepB : τ → ι' → Option (τ × ω')} (f : σ → τ)
    (g : ι → ι') (h : ω → ω')
    (hstep : ∀ s i, stepB (f s) (g i) = (step s i).map fun r => (f r.1, h r.2))
    (s : σ) (is : List ι) :
    run stepB (f s) (is.map g) = (run step s is).map fun r => (f r.1, r.2.map h) := by
  induction is generalizing s with
  | nil => rfl
  | cons i is ih =>
    simp only [List.map_cons, run, hstep]
    cases step s i with
    | none => rfl
    | some r =>
      obtain ⟨m, o⟩ := r
      simp only [Option.map_some, Option.bind_eq_bind, Option.bind_some, ih]
      cases run step m is <;> rfl

/-- Projection of a run: the inputs kept by `P` drive a second machine related
to the first by `R`, the others only move the first. Then the kept inputs alone
make a run of the second machine, with the outputs they had in the full one. -/
theorem run_filter (stepB : τ → ι → Option (τ × ω)) (R : σ → τ → Prop) (P : ι → Bool)
    (Q : ω → Bool)
    (hkeep : ∀ s t i s' o, R s t → P i = true → step s i = some (s', o) →
      Q o = true ∧ ∃ t', stepB t i = some (t', o) ∧ R s' t')
    (hskip : ∀ s t i s' o, R s t → P i = false → step s i = some (s', o) →
      Q o = false ∧ R s' t)
    (s : σ) (t : τ) (is : List ι) (s' : σ) (os : List ω)
    (hinit : R s t) (h : run step s is = some (s', os)) :
    ∃ t', run stepB t (is.filter P) = some (t', os.filter Q) ∧ R s' t' := by
  induction is generalizing s t os with
  | nil =>
    simp only [run_nil, Option.some.injEq, Prod.mk.injEq] at h
    obtain ⟨rfl, rfl⟩ := h
    exact ⟨t, rfl, hinit⟩
  | cons i is ih =>
    obtain ⟨m, o, os', hi, hrun, rfl⟩ := (run_cons ..).mp h
    cases hP : P i with
    | true =>
      obtain ⟨hQ, n, hn, hR⟩ := hkeep s t i m o hinit hP hi
      obtain ⟨t', ht', hR'⟩ := ih m n os' hR hrun
      refine ⟨t', ?_, hR'⟩
      rw [List.filter_cons_of_pos hP, List.filter_cons_of_pos hQ, run_cons]
      exact ⟨n, o, _, hn, ht', rfl⟩
    | false =>
      obtain ⟨hQ, hR⟩ := hskip s t i m o hinit hP hi
      obtain ⟨t', ht', hR'⟩ := ih m t os' hR hrun
      refine ⟨t', ?_, hR'⟩
      rw [List.filter_cons_of_neg (by simp [hP]), List.filter_cons_of_neg (by simp [hQ])]
      exact ht'

theorem run_simulates (stepB : τ → ι → Option (τ × ω)) (R : σ → τ → Prop)
    (hstep : ∀ s t i s' o, R s t → step s i = some (s', o) →
      ∃ t', stepB t i = some (t', o) ∧ R s' t')
    (s : σ) (t : τ) (is : List ι) (s' : σ) (os : List ω) (hinit : R s t)
    (h : run step s is = some (s', os)) : ∃ t', run stepB t is = some (t', os) ∧ R s' t' := by
  have hall := run_filter stepB R (fun _ => true) (fun _ => true)
    (fun s t i s' o hR _ hi => ⟨rfl, hstep s t i s' o hR hi⟩)
    (fun _ _ _ _ _ _ hfalse => by cases hfalse) s t is s' os hinit h
  simpa only [List.filter_true] using hall

/-- Inputs that change nothing: a run goes through when the others do on their own, and
each of these is taken where the others before it lead. -/
theorem run_skip_isSome (Inv : σ → Prop) (P : ι → Bool) (Fits : σ → ι → Prop)
    (hinv : ∀ s i s' o, Inv s → step s i = some (s', o) → Inv s')
    (hskip : ∀ s i s' o, Inv s → P i = false → step s i = some (s', o) → s' = s)
    (hfits : ∀ s i, Inv s → P i = false → ((step s i).isSome ↔ Fits s i))
    (s : σ) (is : List ι) (hs : Inv s) :
    (run step s is).isSome ↔ (run step s (is.filter P)).isSome ∧
      ∀ is₁ i is₂ t os, is = is₁ ++ i :: is₂ → P i = false →
        run step s (is₁.filter P) = some (t, os) → Fits t i := by
  induction is generalizing s with
  | nil => simp
  | cons i is ih =>
    rw [isSome_run_cons]
    cases hP : P i with
    | true =>
      rw [List.filter_cons_of_pos hP, isSome_run_cons]
      constructor
      · rintro ⟨m, o, hi, hrun⟩
        obtain ⟨hkept, hfit⟩ := (ih m (hinv s i m o hs hi)).mp hrun
        refine ⟨⟨m, o, hi, hkept⟩, fun is₁ j is₂ t os heq hj hrun₁ => ?_⟩
        cases is₁ with
        | nil =>
          obtain ⟨rfl, -⟩ := List.cons.inj heq
          rw [hP] at hj
          cases hj
        | cons i' is₁ =>
          obtain ⟨rfl, rfl⟩ := List.cons.inj heq
          rw [List.filter_cons_of_pos hP] at hrun₁
          obtain ⟨m', o', os', hi', hrun', -⟩ := (run_cons ..).mp hrun₁
          obtain ⟨rfl, rfl⟩ : m = m' ∧ o = o' := by simpa using hi.symm.trans hi'
          exact hfit is₁ j is₂ t os' rfl hj hrun'
      · rintro ⟨⟨m, o, hi, hkept⟩, hfit⟩
        refine ⟨m, o, hi, (ih m (hinv s i m o hs hi)).mpr ⟨hkept, ?_⟩⟩
        intro is₁ j is₂ t os heq hj hrun₁
        refine hfit (i :: is₁) j is₂ t (o :: os) (by rw [heq]; rfl) hj ?_
        rw [List.filter_cons_of_pos hP]
        exact (run_cons ..).mpr ⟨m, o, os, hi, hrun₁, rfl⟩
    | false =>
      have hP' : ¬ P i = true := by simp [hP]
      rw [List.filter_cons_of_neg hP']
      constructor
      · rintro ⟨m, o, hi, hrun⟩
        obtain rfl := hskip s i m o hs hP hi
        obtain ⟨hkept, hfit⟩ := (ih m hs).mp hrun
        refine ⟨hkept, fun is₁ j is₂ t os heq hj hrun₁ => ?_⟩
        cases is₁ with
        | nil =>
          obtain ⟨rfl, -⟩ := List.cons.inj heq
          obtain ⟨rfl, -⟩ : m = t ∧ _ := by simpa using hrun₁
          exact (hfits m i hs hP).mp (Option.isSome_of_eq_some hi)
        | cons i' is₁ =>
          obtain ⟨rfl, rfl⟩ := List.cons.inj heq
          rw [List.filter_cons_of_neg hP'] at hrun₁
          exact hfit is₁ j is₂ t os rfl hj hrun₁
      · rintro ⟨hkept, hfit⟩
        have hi := (hfits s i hs hP).mpr (hfit [] i is s [] rfl hP rfl)
        obtain ⟨⟨m, o⟩, hi⟩ := Option.isSome_iff_exists.mp hi
        obtain rfl := hskip s i m o hs hP hi
        refine ⟨m, o, hi, (ih m hs).mpr ⟨hkept, ?_⟩⟩
        intro is₁ j is₂ t os heq hj hrun₁
        refine hfit (i :: is₁) j is₂ t os (by rw [heq]; rfl) hj ?_
        rwa [List.filter_cons_of_neg hP']

end AllaMorra.Machine
