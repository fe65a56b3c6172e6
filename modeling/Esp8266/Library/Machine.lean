/-! Deterministic machines driven by a list of actions. The choices of the
environment (allocation outcomes, interrupts, arriving bytes) are part of the
action, so a statement about every run is a statement about every list. -/
namespace Esp8266.Runs

structure Machine (σ α ρ : Type) where
  step : σ → α → σ × ρ

def Machine.run (m : Machine σ α ρ) : σ → List α → σ × List ρ
  | s, [] => (s, [])
  | s, a :: rest =>
      let next := m.step s a
      let tail := m.run next.1 rest
      (tail.1, next.2 :: tail.2)

/-- Every action of the run meets `guard` in the state it is taken from. -/
def Machine.Along (m : Machine σ α ρ) (guard : σ → α → Prop) : σ → List α → Prop
  | _, [] => True
  | s, a :: rest => guard s a ∧ m.Along guard (m.step s a).1 rest

instance Machine.decidableAlong (m : Machine σ α ρ) (guard : σ → α → Prop)
    [∀ s a, Decidable (guard s a)] : (s : σ) → (actions : List α) →
    Decidable (m.Along guard s actions)
  | _, [] => isTrue trivial
  | s, a :: rest =>
    have := m.decidableAlong guard (m.step s a).1 rest
    inferInstanceAs (Decidable (guard s a ∧ m.Along guard (m.step s a).1 rest))

@[simp] theorem Machine.run_nil (m : Machine σ α ρ) (s : σ) : m.run s [] = (s, []) := rfl

theorem Machine.run_cons (m : Machine σ α ρ) (s : σ) (a : α) (rest : List α) :
    m.run s (a :: rest) =
      ((m.run (m.step s a).1 rest).1, (m.step s a).2 :: (m.run (m.step s a).1 rest).2) := rfl

theorem Machine.run_append (m : Machine σ α ρ) (s : σ) (first second : List α) :
    (m.run s (first ++ second)).1 = (m.run (m.run s first).1 second).1 := by
  induction first generalizing s with
  | nil => rfl
  | cons a first ih => exact ih _

theorem Machine.along_of_forall (m : Machine σ α ρ) (guard : σ → α → Prop)
    (always : ∀ s a, guard s a) (s : σ) (actions : List α) : m.Along guard s actions := by
  induction actions generalizing s with
  | nil => trivial
  | cons a rest ih => exact ⟨always s a, ih _⟩

theorem Machine.along_of_mem (m : Machine σ α ρ) (guard : α → Prop) (s : σ) (actions : List α)
    (all : ∀ a ∈ actions, guard a) : m.Along (fun _ a => guard a) s actions := by
  induction actions generalizing s with
  | nil => trivial
  | cons a rest ih =>
    exact ⟨all a List.mem_cons_self, ih _ fun b hb => all b (List.mem_cons_of_mem a hb)⟩

theorem Machine.along_first (m : Machine σ α ρ) (guard : σ → α → Prop) (s : σ)
    (first second : List α) (along : m.Along guard s (first ++ second)) :
    m.Along guard s first := by
  induction first generalizing s with
  | nil => trivial
  | cons a first ih => exact ⟨along.1, ih _ along.2⟩

theorem Machine.along_and (m : Machine σ α ρ) (guard also : σ → α → Prop) (s : σ)
    (actions : List α) (along : m.Along guard s actions) (too : m.Along also s actions) :
    m.Along (fun s a => guard s a ∧ also s a) s actions := by
  induction actions generalizing s with
  | nil => trivial
  | cons a rest ih => exact ⟨⟨along.1, too.1⟩, ih _ along.2 too.2⟩

theorem Machine.run_invariant (m : Machine σ α ρ) (guard : σ → α → Prop) (inv : σ → Prop)
    (keep : ∀ s a, inv s → guard s a → inv (m.step s a).1)
    (s : σ) (actions : List α) (start : inv s) (along : m.Along guard s actions) :
    inv (m.run s actions).1 := by
  induction actions generalizing s with
  | nil => exact start
  | cons a rest ih =>
    rw [Machine.run_cons]
    exact ih _ (keep s a start along.1) along.2

theorem Machine.along_of_invariant (m : Machine σ α ρ) (guard post : σ → α → Prop)
    (inv : σ → Prop) (keep : ∀ s a, inv s → guard s a → inv (m.step s a).1)
    (good : ∀ s a, inv s → guard s a → post s a)
    (s : σ) (actions : List α) (start : inv s) (along : m.Along guard s actions) :
    m.Along post s actions := by
  induction actions generalizing s with
  | nil => trivial
  | cons a rest ih =>
    exact ⟨good s a start along.1, ih _ (keep s a start along.1) along.2⟩

theorem Machine.along_iff_invariant (m : Machine σ α ρ) (guard : σ → α → Prop)
    (base inv : σ → Prop)
    (keepBase : ∀ s a, base s → inv s → guard s a → base (m.step s a).1)
    (keepIff : ∀ s a, base s → inv s → (inv (m.step s a).1 ↔ guard s a))
    (s : σ) (actions : List α) (hbase : base s) (start : inv s) :
    (∀ first second, actions = first ++ second → inv (m.run s first).1) ↔
      m.Along guard s actions := by
  induction actions generalizing s with
  | nil =>
    refine iff_of_true ?_ trivial
    intro first second h
    rw [(List.append_eq_nil_iff.mp h.symm).1]
    exact start
  | cons a rest ih =>
    constructor
    · intro hall
      have hnext : inv (m.step s a).1 := hall [a] rest rfl
      have hguard := (keepIff s a hbase start).mp hnext
      refine ⟨hguard, (ih _ (keepBase s a hbase start hguard) hnext).mp ?_⟩
      intro first second h
      exact hall (a :: first) second (congrArg (a :: ·) h)
    · intro along first second h
      have hnext := (keepIff s a hbase start).mpr along.1
      cases first with
      | nil => exact start
      | cons b first =>
        obtain ⟨rfl, hrest⟩ := List.cons.inj h
        rw [Machine.run_cons]
        exact (ih _ (keepBase s a hbase start along.1) hnext).mpr along.2 first second hrest

theorem Machine.run_simulation (m : Machine σ α ρ) (n : Machine τ α ρ)
    (guard : σ → α → Prop) (rel : σ → τ → Prop)
    (simulate : ∀ s t a, rel s t → guard s a →
      rel (m.step s a).1 (n.step t a).1 ∧ (m.step s a).2 = (n.step t a).2)
    (s : σ) (t : τ) (actions : List α) (start : rel s t) (along : m.Along guard s actions) :
    rel (m.run s actions).1 (n.run t actions).1 ∧
      (m.run s actions).2 = (n.run t actions).2 := by
  induction actions generalizing s t with
  | nil => exact ⟨start, rfl⟩
  | cons a rest ih =>
    obtain ⟨hrel, hout⟩ := simulate s t a start along.1
    obtain ⟨hend, houts⟩ := ih _ _ hrel along.2
    simp only [Machine.run_cons]
    exact ⟨hend, by rw [hout, houts]⟩

theorem Machine.run_history (m : Machine σ α (List β)) (history : σ → List β)
    (extend : ∀ s a, history (m.step s a).1 = history s ++ (m.step s a).2)
    (s : σ) (actions : List α) :
    history (m.run s actions).1 = history s ++ (m.run s actions).2.flatten := by
  induction actions generalizing s with
  | nil => simp
  | cons a rest ih =>
    rw [Machine.run_cons, ih, extend, List.flatten_cons, List.append_assoc]

theorem Machine.run_account (m : Machine σ α (List β)) (guard : σ → α → Prop)
    (inv : σ → List β → Prop)
    (keep : ∀ s a history, inv s history → guard s a →
      inv (m.step s a).1 (history ++ (m.step s a).2))
    (s : σ) (actions : List α) (history : List β) (start : inv s history)
    (along : m.Along guard s actions) :
    inv (m.run s actions).1 (history ++ (m.run s actions).2.flatten) := by
  induction actions generalizing s history with
  | nil => simpa using start
  | cons a rest ih =>
    rw [Machine.run_cons, List.flatten_cons, ← List.append_assoc]
    exact ih _ _ (keep s a history start along.1) along.2

theorem Machine.run_terminates (m : Machine σ α ρ) (guard : σ → α → Prop) (inv : σ → Prop)
    (done : σ → Prop) (progress : α → Bool) (measure : σ → Nat)
    (keep : ∀ s a, inv s → guard s a → inv (m.step s a).1)
    (lower : ∀ s a, inv s → guard s a → ¬ done s →
      measure (m.step s a).1 + (if progress a then 1 else 0) ≤ measure s)
    (stop : ∀ s, inv s → measure s = 0 → done s)
    (s : σ) (actions : List α) (start : inv s) (along : m.Along guard s actions)
    (enough : measure s ≤ actions.countP progress) :
    ∃ steps, done (m.run s (actions.take steps)).1 := by
  induction actions generalizing s with
  | nil => exact ⟨0, stop s start (Nat.le_zero.mp enough)⟩
  | cons a rest ih =>
    by_cases hdone : done s
    · exact ⟨0, hdone⟩
    · have hlower := lower s a start along.1 hdone
      have hcount : measure (m.step s a).1 ≤ rest.countP progress := by
        rw [List.countP_cons] at enough
        omega
      obtain ⟨steps, hsteps⟩ := ih _ (keep s a start along.1) along.2 hcount
      exact ⟨steps + 1, hsteps⟩

end Esp8266.Runs
