import Mathlib.Data.List.Perm.Basic
import Strata.Engine.Open
import Strata.Engine.Operation
import Strata.Proofs.Memory.Handles

/-!
# Moves

A run of an engine is any sequence of moves: operations from outside, pending turns in any order, and turns in
the order in which the engine itself takes them. It starts from an engine whose session was just opened.
-/

namespace Strata

variable {ν α : Type}

inductive Move (ν α : Type)
  /-- An operation from outside. -/
  | call (op : Operation ν α)
  /-- A pending turn, whenever it was due. -/
  | turn (n : Nat)
  /-- The turn at the head of the queue, or it is put back. -/
  | fire

namespace Engine

/-- An engine with a session on some device, of which nothing has been asked. -/
def Opened [Measure ν] [Channel α] (e : Engine ν α) : Prop :=
  ∃ device o config, onDevice device o config = .ok e

theorem Opened.eq [Measure ν] [Channel α] {e : Engine ν α} (h : e.Opened) :
    ∃ (device : Device ν α) (o : EngineOptions ν) (config : Config α), e = { bare device o with
      pool := ⟨{ options := o.arena "Session" }, device⟩, config, supervised := true } := by
  obtain ⟨device, o, config, h⟩ := h
  unfold onDevice at h
  cases hc : parseConfig config with
  | error failure => rw [hc] at h; cases h
  | ok change =>
    rw [hc] at h
    cases h
    exact ⟨device, o, _, rfl⟩

variable [Measure ν] [Channel α] [Stored α] [Transfer α]

def move (e : Engine ν α) : Move ν α → Engine ν α
  | .call op => (e.apply op).2
  | .turn n =>
    match e.turns[n]? with
    | some (_, t) => ({ e with turns := e.turns.eraseIdx n } : Engine ν α).perform t
    | none => e
  | .fire => e.fire

def run (e : Engine ν α) (moves : List (Move ν α)) : Engine ν α := moves.foldl move e

theorem run_append (e : Engine ν α) (moves moves' : List (Move ν α)) :
    e.run (moves ++ moves') = (e.run moves).run moves' := List.foldl_append

theorem run_snoc (e : Engine ν α) (moves : List (Move ν α)) (m : Move ν α) :
    e.run (moves ++ [m]) = (e.run moves).move m :=
  run_append e moves [m]

/-! ## The turn that a move runs -/

variable {e : Engine ν α} {m : Move ν α}

def Takes (e : Engine ν α) : Move ν α → Turn ν α → Prop
  | .call _, _ => False
  | .turn n, x => ∃ delay, e.turns[n]? = some (delay, x)
  | .fire, x => ∃ delay rest, e.turns = (delay, x) :: rest ∧ delay ≤ 1

omit [Measure ν] [Channel α] [Stored α] [Transfer α] in
theorem Takes.unique {x y : Turn ν α} (hx : e.Takes m x) (hy : e.Takes m y) : x = y := by
  cases m with
  | call op => exact hx.elim
  | turn n =>
    obtain ⟨delay, hx⟩ := hx
    obtain ⟨delay', hy⟩ := hy
    rw [hx] at hy
    cases hy
    rfl
  | fire =>
    obtain ⟨delay, rest, hx, -⟩ := hx
    obtain ⟨delay', rest', hy, -⟩ := hy
    rw [hx] at hy
    cases hy
    rfl

/-- A move is an operation, or runs a turn, or does nothing but to put a turn back. -/
theorem move_cases (e : Engine ν α) (m : Move ν α) :
    (∃ op, m = .call op) ∨
    (∃ x delay rest, e.Takes m x ∧ e.turns.Perm ((delay, x) :: rest) ∧
      e.move m = ({ e with turns := rest } : Engine ν α).perform x) ∨
    (∀ x, ¬e.Takes m x) ∧ ∃ turns : List (Nat × Turn ν α), (turns.map (·.2)).Perm (e.turns.map (·.2)) ∧
      e.move m = { e with turns } := by
  cases m with
  | call op => exact .inl ⟨op, rfl⟩
  | turn n =>
    refine .inr ?_
    cases hn : e.turns[n]? with
    | none =>
      refine .inr ⟨(fun x ⟨delay, hx⟩ => by rw [hn] at hx; cases hx), e.turns, List.Perm.refl _, ?_⟩
      unfold move
      dsimp only
      rw [hn]
    | some d =>
      obtain ⟨delay, x⟩ := d
      obtain ⟨hlt, hget⟩ := List.getElem?_eq_some_iff.mp hn
      refine .inl ⟨x, delay, e.turns.eraseIdx n, ⟨delay, hn⟩, ?_, ?_⟩
      · rw [← hget]
        exact (List.getElem_cons_eraseIdx_perm hlt).symm
      · unfold move
        dsimp only
        rw [hn]
  | fire =>
    refine .inr ?_
    cases heq : e.turns with
    | nil =>
      refine .inr ⟨(fun x ⟨delay, rest, hx, _⟩ => by rw [heq] at hx; cases hx), [], List.Perm.refl _, ?_⟩
      unfold move fire
      dsimp only
      rw [heq]
      dsimp only
      rw [← heq]
    | cons d rest =>
      obtain ⟨delay, x⟩ := d
      -- a turn that is not due goes to the end of the queue with less to wait
      by_cases hdue : delay ≤ 1
      · refine .inl ⟨x, delay, rest, ⟨delay, rest, heq, hdue⟩, List.Perm.refl _, ?_⟩
        unfold move fire
        dsimp only
        rw [heq]
        dsimp only
        rw [if_pos hdue]
      · refine .inr ⟨fun y ⟨delay', rest', hy, hdue'⟩ => ?_, rest ++ [(delay - 1, x)], ?_, ?_⟩
        · rw [heq] at hy
          cases hy
          exact hdue hdue'
        · rw [List.map_append]
          exact List.perm_append_comm
        · unfold move fire
          dsimp only
          rw [heq]
          dsimp only
          rw [if_neg hdue]
          rfl

theorem Takes.move_eq {x : Turn ν α} (h : e.Takes m x) : ∃ delay rest, e.turns.Perm ((delay, x) :: rest) ∧
    e.move m = ({ e with turns := rest } : Engine ν α).perform x := by
  rcases e.move_cases m with ⟨op, rfl⟩ | ⟨x', delay, rest, h', hperm, heq⟩ | ⟨hnone, -⟩
  · exact h.elim
  · obtain rfl := h'.unique h
    exact ⟨delay, rest, hperm, heq⟩
  · exact absurd h (hnone x)

end Engine

end Strata
