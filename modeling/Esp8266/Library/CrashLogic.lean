/-! Programs on a state that may stop in the middle, and rules for what holds of the state when they
end and when they stop. -/
namespace Esp8266.CrashLogic

def Program (σ α : Type) := σ → Option α × σ

instance : Monad (Program σ) where
  pure a s := (some a, s)
  bind x f s :=
    match x s with
    | (none, s') => (none, s')
    | (some a, s') => f a s'

theorem bind_run {x : Program σ α} {f : α → Program σ β} {s s' : σ} {a : α}
    (h : x s = (some a, s')) : (x >>= f) s = f a s' := by
  change (match x s with | (none, s') => _ | (some a, s') => _) = _
  rw [h]

theorem bind_stopped {x : Program σ α} {f : α → Program σ β} {s s' : σ} (h : x s = (none, s')) :
    (x >>= f) s = (none, s') := by
  change (match x s with | (none, s') => _ | (some a, s') => _) = _
  rw [h]

def Triple (pre : σ → Prop) (x : Program σ α) (post : α → σ → Prop) (crash : σ → Prop) : Prop :=
  ∀ s, pre s →
    match x s with
    | (some a, s') => post a s'
    | (none, s') => crash s'

section Rules
variable {pre pre' crash crash' : σ → Prop} {x y : Program σ α} {post post' : α → σ → Prop}

theorem Triple.pure {a : α} (h : ∀ s, pre s → post a s) :
    Triple pre (Pure.pure a : Program σ α) post crash := h

theorem Triple.bind {mid : α → σ → Prop} {f : α → Program σ β} {post : β → σ → Prop}
    (hx : Triple pre x mid crash) (hf : ∀ a, Triple (mid a) (f a) post crash) :
    Triple pre (x >>= f) post crash := by
  intro s hpre
  have hmid := hx s hpre
  change match (match x s with | (none, s') => (none, s') | (some a, s') => f a s') with
    | (some b, s') => post b s'
    | (none, s') => crash s'
  split at hmid
  · rename_i a s' heq
    rw [heq]
    exact hf a s' hmid
  · rename_i s' heq
    rw [heq]
    exact hmid

theorem Triple.weaken (h : Triple pre x post crash) (hpre : ∀ s, pre' s → pre s)
    (hpost : ∀ a s, post a s → post' a s) (hcrash : ∀ s, crash s → crash' s) :
    Triple pre' x post' crash' := by
  intro s hs
  have hend := h s (hpre s hs)
  split at hend
  · exact hpost _ _ hend
  · exact hcrash _ hend

theorem Triple.ite {p : Prop} [Decidable p] (hx : p → Triple pre x post crash)
    (hy : ¬ p → Triple pre y post crash) : Triple pre (if p then x else y) post crash := by
  split
  · exact hx ‹p›
  · exact hy ‹¬ p›

theorem Triple.ended (h : Triple pre x post crash) {s : σ} (hpre : pre s) {a : α}
    (hend : (x s).1 = some a) : post a (x s).2 := by
  have hs := h s hpre
  split at hs
  · rename_i b s' heq
    rw [heq] at hend ⊢
    rwa [← Option.some.inj hend]
  · rename_i s' heq
    rw [heq] at hend
    exact nomatch hend

theorem Triple.stopped (h : Triple pre x post crash) {s : σ} (hpre : pre s)
    (hstop : (x s).1 = none) : crash (x s).2 := by
  have hs := h s hpre
  split at hs
  · rename_i b s' heq
    rw [heq] at hstop
    exact nomatch hstop
  · rename_i s' heq
    rw [heq]
    exact hs

end Rules

end Esp8266.CrashLogic
