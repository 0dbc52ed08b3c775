import RealTimeLabs.Motor.Tracking

/-! What missed edges do to the count.

Nothing is assumed of the shaft: between two interrupts it may stand still, turn back or
run through any number of steps. A sample still shows the position modulo four, and every
entry of `TRANSITION_TABLE` moves the position by what the sample shows, but for the four
that change both lines: they leave out half a cycle (`Quadrature.decode_phase`). The phase
of the position is then the shaft's, up to half a cycle for each of these. -/
namespace RealTimeLabs.Motor
open Quadrature

/-- The interrupts, among the first `n`, whose sample differs from the one before in both
lines; sample `k` is read with the shaft at `p k`. -/
def doubleSteps (p : Nat → Int) : Nat → Nat
  | 0 => 0
  | n + 1 => doubleSteps p n +
    (bothDiffer (lineA (p n)) (lineB (p n)) (lineA (p (n + 1))) (lineB (p (n + 1)))).toNat

theorem linePattern_eq_iff (p q : Int) : linePattern p = linePattern q ↔ p % 4 = q % 4 := by
  have hp : p % 4 = 0 ∨ p % 4 = 1 ∨ p % 4 = 2 ∨ p % 4 = 3 := by omega
  have hq : q % 4 = 0 ∨ q % 4 = 1 ∨ q % 4 = 2 ∨ q % 4 = 3 := by omega
  unfold linePattern
  rcases hp with hp | hp | hp | hp <;> rcases hq with hq | hq | hq | hq <;>
    rw [hp, hq] <;> decide

/-- The 32-bit position wraps at a multiple of the cycle. -/
theorem toInt_add_mod_four (a b : Int32) : (a + b).toInt % 4 = (a.toInt + b.toInt) % 4 := by
  have hwrap : (a.toInt + b.toInt).bmod 4294967296 % 4294967296 =
      (a.toInt + b.toInt) % 4294967296 := Int.bmod_emod
  change (a + b).toInt % 4 = _
  rw [Int32.toInt_add]
  change (a.toInt + b.toInt).bmod 4294967296 % 4 = _
  omega

theorem toInt_decode (a b a' b' : Bool) :
    (Int32.ofInt (decode a b a' b')).toInt = decode a b a' b' := by
  cases a <;> cases b <;> cases a' <;> cases b' <;> decide

/-- One handler moves the phase of the position as the shaft's, or leaves out half a cycle. -/
theorem motorIsr_phase (p q : Int) (d : Driver) (hstate : d.motorState = linePattern p) :
    (motorIsr (motorSr q) (motorSr q) d).motorState = linePattern q ∧
      (motorIsr (motorSr q) (motorSr q) d).shared.position.toInt % 4 =
        (d.shared.position.toInt + (q - p) +
          2 * (bothDiffer (lineA p) (lineB p) (lineA q) (lineB q)).toNat) % 4 := by
  obtain ⟨hm, hp, _⟩ := motorIsr_decode (motorSr q) (motorSr q) d
  have hsample := sample_motorSr q q
  refine ⟨?_, ?_⟩
  · rw [hm, ← pattern_lines]
    exact hsample
  · have hmove := decode_phase p q
    have hposition : (d.decode (ircA (motorSr q)) (ircB (motorSr q))).shared.position =
        d.shared.position + Int32.ofInt (decode (lineA p) (lineB p) (lineA q) (lineB q)) := by
      rw [← transitionTable_pattern, ← hsample, pattern_lines, ← hstate]
      rfl
    rw [hp, hposition, toInt_add_mod_four, toInt_decode]
    omega

/-- What the position and the state of the decoder say of a shaft that has gone from `start`
to `p`, with `jumps` interrupts at which both lines had changed. -/
structure PhaseOf (start p : Int) (jumps : Nat) (d : Driver) : Prop where
  state : d.motorState = linePattern p
  position : d.shared.position.toInt % 4 = (p - start + 2 * jumps) % 4
  /-- The position shows the lines that the decoder has seen. -/
  agree : linePattern (start + d.shared.position.toInt) = d.motorState ↔ jumps % 2 = 0
  /-- It is never one step beside them. -/
  noStep : linePattern (start + d.shared.position.toInt + 1) ≠ d.motorState ∧
    linePattern (start + d.shared.position.toInt - 1) ≠ d.motorState

theorem PhaseOf.of_position {start p : Int} {jumps : Nat} {d : Driver}
    (hstate : d.motorState = linePattern p)
    (hposition : d.shared.position.toInt % 4 = (p - start + 2 * jumps) % 4) :
    PhaseOf start p jumps d := by
  refine ⟨hstate, hposition, ?_, ?_, ?_⟩
  · rw [hstate, linePattern_eq_iff]
    omega
  · rw [hstate, ne_eq, linePattern_eq_iff]
    omega
  · rw [hstate, ne_eq, linePattern_eq_iff]
    omega

/-- **Missed edges leave the phase right, or half a cycle off**, after any number of
interrupts and whatever the shaft does between them. -/
theorem missed_edges_keep_phase (p : Nat → Int) (d : Driver) (n : Nat) :
    PhaseOf (p 0) (p n) (doubleSteps p n) (sampled p p d n) := by
  induction n with
  | zero =>
    refine .of_position ?_ ?_
    · rw [← pattern_lines]
      exact initState_motorSr (p 0) (p 0)
    · change (0 : Int32).toInt % 4 = (p 0 - p 0 + 2 * (0 : Nat)) % 4
      rw [Int.sub_self]
      rfl
  | succ n ih =>
    obtain ⟨hstate, hposition⟩ := motorIsr_phase (p n) (p (n + 1)) (sampled p p d n) ih.state
    refine .of_position hstate ?_
    have hsofar := ih.position
    rw [sampled, hposition, doubleSteps]
    push_cast
    omega

end RealTimeLabs.Motor
