import Strata.Proofs.Engine.Runs

/-!
# Turns in the order of the queue

`Comes` says where an engine gets by itself, when turns are fired in the order in which it queues them.
A session is `Calm` while nothing that was scripted for its device stands in the way of a call.
-/

namespace Strata.Engine

variable {α : Type} [Channel α] [Stored α] [Transfer α] {G : Ledger α} {e e' e'' : Engine Int α}

/-- An engine gets to another by firing turns. -/
def Comes (e e' : Engine Int α) : Prop := ∃ n, e.fireMany n = e'

theorem fireMany_idle (h : e.turns = []) (n : Nat) : e.fireMany n = e := by
  cases n with
  | zero => rfl
  | succ n => simp [fireMany, h]

theorem fireMany_succ (h : e.turns ≠ []) (n : Nat) : e.fireMany (n + 1) = e.fire.fireMany n := by
  simp [fireMany, h]

theorem fireMany_add (m n : Nat) : e.fireMany (m + n) = (e.fireMany m).fireMany n := by
  induction m generalizing e with
  | zero => rw [Nat.zero_add]; rfl
  | succ m ih =>
    by_cases h : e.turns = []
    · simp only [fireMany_idle h]
    · rw [Nat.add_right_comm, fireMany_succ h, fireMany_succ h, ih]

theorem Comes.trans (h : e.Comes e') (h' : e'.Comes e'') : e.Comes e'' := by
  obtain ⟨m, rfl⟩ := h
  obtain ⟨n, rfl⟩ := h'
  exact ⟨m + n, fireMany_add m n⟩

theorem Comes.fire (e : Engine Int α) : e.Comes e.fire := by
  by_cases h : e.turns = []
  · refine ⟨0, ?_⟩
    simp [fireMany, Engine.fire, h]
  · exact ⟨1, fireMany_succ h 0⟩

theorem fire_due {t : Turn Int α} {rest : List (Nat × Turn Int α)} {delay : Nat} (h : e.turns = (delay, t) :: rest)
    (hd : delay ≤ 1) : e.fire = ({ e with turns := rest } : Engine Int α).perform t := by
  simp [fire, h, hd]

theorem fire_put_back {t : Turn Int α} {rest : List (Nat × Turn Int α)} {delay : Nat}
    (h : e.turns = (delay, t) :: rest) (hd : ¬ delay ≤ 1) :
    e.fire = { e with turns := rest ++ [(delay - 1, t)] } := by
  simp [fire, h, hd, schedule]

/-- The only turn there is runs, however long it has to wait. -/
theorem Comes.single {t : Turn Int α} {delay : Nat} (h : e.turns = [(delay, t)]) :
    e.Comes (({ e with turns := [] } : Engine Int α).perform t) := by
  induction delay generalizing e with
  | zero =>
    have hfire := Comes.fire e
    rwa [fire_due h (Nat.zero_le 1)] at hfire
  | succ delay ih =>
    have hfire := Comes.fire e
    by_cases hd : delay + 1 ≤ 1
    · rwa [fire_due h hd] at hfire
    · rw [fire_put_back h hd] at hfire
      exact hfire.trans (ih rfl)

theorem Well.comes (hw : e.Well G) (h : e.Comes e') : e'.Well G := by
  obtain ⟨n, rfl⟩ := h
  induction n generalizing e with
  | zero => exact hw
  | succ n ih =>
    by_cases h : e.turns = []
    · rwa [fireMany_idle h]
    · rw [fireMany_succ h]
      exact ih (hw.proceeds (fire_proceeds hw))

/-- A ready session that answers requests, on a device that was told neither to fail nor to wait. -/
structure Calm (e : Engine Int α) : Prop where
  ready : e.session.phase = .ready
  accepts : e.cache.closing = none
  faults : e.pool.device.faults = []
  injected : e.pool.device.injected = []
  held : e.pool.device.held = false
  gate : e.pool.device.gate = none
  builds : e.pool.device.refusesBuilds = false

omit [Channel α] [Stored α] [Transfer α] in
theorem Calm.steady (h : e.Calm) (hphase : e'.session.phase = e.session.phase)
    (hcache : e'.cache.closing = e.cache.closing) (hd : e.pool.device.Steady e'.pool.device) : e'.Calm where
  ready := hphase.trans h.ready
  accepts := hcache.trans h.accepts
  faults := List.eq_nil_of_subset_nil (h.faults ▸ hd.faults)
  injected := hd.injected.trans h.injected
  held := hd.held.trans h.held
  gate := hd.gate.trans h.gate
  builds := hd.refusesBuilds.trans h.builds

/-- Nothing is under way. -/
structure Idle (e : Engine Int α) : Prop where
  turns : e.turns = []
  builds : e.cache.inFlight = []
  entries : e.cache.pendingCount = 0

end Strata.Engine
