import Mathlib

/-!
# Registers that divide

A register that takes a message bit by bit divides it, read as a polynomial over the field of
two elements, by a generator, and holds the remainder.  The errors it finds are those that the
generator does not divide.
-/

namespace Checksum

open Polynomial

universe u

/-- The coefficient of a bit. -/
def bit (b : Bool) : ZMod 2 := if b then 1 else 0

/-- The polynomial of a message, whose first bit is the highest coefficient. -/
noncomputable def message : List Bool → (ZMod 2)[X]
  | [] => 0
  | b :: bits => C (bit b) * X ^ bits.length + message bits

/-- A register of `w` bits, each step of which divides by the generator. -/
structure Divider (σ : Type u) (w : Nat) where
  step : σ → Bool → σ
  /-- The polynomial of a state. -/
  value : σ → (ZMod 2)[X]
  generator : (ZMod 2)[X]
  monic : generator.Monic
  degree_generator : generator.degree = w
  coprime : generator.coeff 0 ≠ 0
  degree_value : ∀ s, (value s).degree < w
  injective : Function.Injective value
  divides : ∀ s b, ∃ q, value (step s b) + q * generator = X * value s + C (bit b) * X ^ w

/-! ## Bits and messages -/

@[simp] theorem message_nil : message [] = 0 := rfl

theorem message_cons (b : Bool) (m : List Bool) :
    message (b :: m) = C (bit b) * X ^ m.length + message m := rfl

theorem bit_xor (a b : Bool) : bit (a ^^ b) = bit a + bit b := by
  cases a <;> cases b <;> decide

theorem bit_inj {a b : Bool} (h : bit a = bit b) : a = b := by
  cases a <;> cases b <;> first | rfl | exact absurd h (by decide)

theorem message_append (m m' : List Bool) :
    message (m ++ m') = X ^ m'.length * message m + message m' := by
  induction m with
  | nil => simp
  | cons b m ih =>
    rw [List.cons_append, message_cons, message_cons, ih, List.length_append, pow_add]
    ring

theorem degree_message (m : List Bool) : (message m).degree < m.length := by
  induction m with
  | nil => simp
  | cons b m ih =>
    have hlt : (m.length : WithBot Nat) < (b :: m).length :=
      Nat.cast_lt.mpr (Nat.lt_succ_self m.length)
    have hhead : (C (bit b) * X ^ m.length).degree < ((b :: m).length : WithBot Nat) :=
      (degree_C_mul_X_pow_le _ _).trans_lt hlt
    have htail : (message m).degree < ((b :: m).length : WithBot Nat) := ih.trans hlt
    exact (degree_add_le _ _).trans_lt (max_lt hhead htail)

theorem coeff_message (b : Bool) (m : List Bool) : (message (b :: m)).coeff m.length = bit b := by
  rw [message_cons, coeff_add, coeff_C_mul, coeff_X_pow_self, mul_one,
    coeff_eq_zero_of_degree_lt (degree_message m), add_zero]

/-- Messages of one length that are one polynomial are one message. -/
theorem message_injective {m m' : List Bool} (hlen : m.length = m'.length)
    (h : message m = message m') : m = m' := by
  induction m generalizing m' with
  | nil => exact (List.length_eq_zero_iff.mp hlen.symm).symm
  | cons b m ih =>
    obtain _ | ⟨b', m'⟩ := m'
    · cases hlen
    · have htail : m.length = m'.length := Nat.succ.inj hlen
      have hbit : bit b = bit b' := by
        rw [← coeff_message b m, ← coeff_message b' m', h, htail]
      obtain rfl := bit_inj hbit
      rw [message_cons, message_cons, htail] at h
      rw [ih htail (add_left_cancel h)]

/-- The bits in which two messages differ. -/
def differing (m m' : List Bool) : List Bool := List.zipWith xor m m'

theorem message_differing {m m' : List Bool} (hlen : m.length = m'.length) :
    message (differing m m') = message m - message m' := by
  induction m generalizing m' with
  | nil =>
    obtain rfl := List.length_eq_zero_iff.mp hlen.symm
    simp [differing]
  | cons b m ih =>
    obtain _ | ⟨b', m'⟩ := m'
    · cases hlen
    · have htail : m.length = m'.length := Nat.succ.inj hlen
      have hdiff : (differing m m').length = m'.length := by
        rw [differing, List.length_zipWith, htail, Nat.min_self]
      have hcons : differing (b :: m) (b' :: m') = (b ^^ b') :: differing m m' := rfl
      rw [hcons, message_cons, message_cons, message_cons, ih htail, hdiff, htail, bit_xor, C_add,
        ← CharTwo.sub_eq_add (C (bit b)) (C (bit b'))]
      ring

/-! ## Remainders -/

namespace Divider

variable {σ : Type u} {w : Nat} (D : Divider σ w)

/-- The state behind a message. -/
def run (s : σ) (m : List Bool) : σ := m.foldl D.step s

theorem run_append (s : σ) (m m' : List Bool) : D.run s (m ++ m') = D.run (D.run s m) m' :=
  List.foldl_append

theorem divides_run (s : σ) (m : List Bool) : ∃ q, D.value (D.run s m) + q * D.generator =
    X ^ m.length * D.value s + X ^ w * message m := by
  induction m generalizing s with
  | nil => exact ⟨0, by simp [run]⟩
  | cons b m ih =>
    obtain ⟨q, hstep⟩ := D.divides s b
    obtain ⟨q', hrun⟩ := ih (D.step s b)
    refine ⟨q' + X ^ m.length * q, ?_⟩
    have hcons : D.run s (b :: m) = D.run (D.step s b) m := rfl
    rw [hcons, message_cons, List.length_cons, pow_succ]
    linear_combination hrun + X ^ m.length * hstep

/-- The register holds the remainder of the message behind its first state. -/
theorem value_run (s : σ) (m : List Bool) : D.value (D.run s m) =
    (X ^ m.length * D.value s + X ^ w * message m) %ₘ D.generator := by
  obtain ⟨q, hrun⟩ := D.divides_run s m
  have hdegree : (D.value (D.run s m)).degree < D.generator.degree :=
    D.degree_generator.symm ▸ D.degree_value _
  have hunique := div_modByMonic_unique q (D.value (D.run s m)) D.monic
    ⟨by rw [mul_comm, hrun], hdegree⟩
  exact hunique.2.symm

/-- What the generator divides of a shifted polynomial it divides of the polynomial. -/
theorem dvd_of_dvd_shift {n : Nat} {p : (ZMod 2)[X]} (h : D.generator ∣ X ^ n * p) :
    D.generator ∣ p := by
  have hcoprime : IsCoprime X D.generator := by
    rw [irreducible_X.coprime_iff_not_dvd, X_dvd_iff]
    exact D.coprime
  exact (hcoprime.pow_left (m := n)).symm.dvd_of_dvd_mul_left h

/-- Two messages of one length leave one state exactly where the generator divides the bits in
which they differ. -/
theorem run_eq_iff (s : σ) {m m' : List Bool} (hlen : m.length = m'.length) :
    D.run s m = D.run s m' ↔ D.generator ∣ message (differing m m') := by
  obtain ⟨q, hrun⟩ := D.divides_run s m
  obtain ⟨q', hrun'⟩ := D.divides_run s m'
  have hdiff : D.value (D.run s m) - D.value (D.run s m') + (q - q') * D.generator =
      X ^ w * message (differing m m') := by
    rw [message_differing hlen]
    rw [hlen] at hrun
    linear_combination hrun - hrun'
  constructor
  · intro heq
    rw [heq, sub_self, zero_add] at hdiff
    exact D.dvd_of_dvd_shift (Dvd.intro_left _ hdiff)
  · rintro ⟨r, hr⟩
    have hdvd : D.generator ∣ D.value (D.run s m) - D.value (D.run s m') :=
      ⟨X ^ w * r - (q - q'), by rw [hr] at hdiff; linear_combination hdiff⟩
    have hdegree : (D.value (D.run s m) - D.value (D.run s m')).degree < D.generator.degree := by
      rw [D.degree_generator]
      exact (degree_sub_le _ _).trans_lt (max_lt (D.degree_value _) (D.degree_value _))
    exact D.injective (sub_eq_zero.mp (eq_zero_of_dvd_of_degree_lt hdvd hdegree))

/-- Errors within as many bits as the register has are found, wherever they are. -/
theorem burst (s : σ) (before behind : List Bool) {x y : List Bool} (hlen : x.length = y.length)
    (hw : x.length ≤ w) (hne : x ≠ y) :
    D.run s (before ++ x ++ behind) ≠ D.run s (before ++ y ++ behind) := by
  intro heq
  rw [D.run_eq_iff s (by simp [hlen]), message_differing (by simp [hlen])] at heq
  have hdiff : message (before ++ x ++ behind) - message (before ++ y ++ behind) =
      X ^ behind.length * (message x - message y) := by
    rw [message_append, message_append, message_append, message_append, hlen]
    ring
  rw [hdiff] at heq
  have hdegree : (message x - message y).degree < D.generator.degree := by
    rw [D.degree_generator]
    have hle : (x.length : WithBot Nat) ≤ w := Nat.cast_le.mpr hw
    have hy := degree_message y
    rw [← hlen] at hy
    exact ((degree_sub_le _ _).trans_lt (max_lt (degree_message x) hy)).trans_le hle
  exact hne (message_injective hlen
    (sub_eq_zero.mp (eq_zero_of_dvd_of_degree_lt (D.dvd_of_dvd_shift heq) hdegree)))

/-- With a generator that one is a root of, errors in an odd number of bits are found. -/
theorem odd_errors (hroot : D.generator.eval 1 = 0) (s : σ) {m m' : List Bool}
    (hlen : m.length = m'.length) (hodd : Odd ((differing m m').count true)) :
    D.run s m ≠ D.run s m' := by
  intro heq
  obtain ⟨q, hq⟩ := (D.run_eq_iff s hlen).mp heq
  have heval : ∀ e : List Bool, (message e).eval 1 = (e.count true : ZMod 2) := by
    intro e
    induction e with
    | nil => simp
    | cons b e ih =>
      rw [message_cons, eval_add, ih, eval_mul, eval_C, eval_pow, eval_X, one_pow, mul_one,
        List.count_cons]
      cases b <;> simp [bit, add_comm]
  have hzero := heval (differing m m')
  rw [hq, eval_mul, hroot, zero_mul] at hzero
  exact absurd (ZMod.natCast_ne_zero_iff_odd.mpr hodd) (by rw [← hzero]; simp)

/-- The remainder behind a message leaves nothing, and nothing else of its length does. -/
theorem value_run_eq_zero_iff (s : σ) {r : List Bool} (hlen : r.length = w) :
    D.value (D.run s r) = 0 ↔ message r = D.value s := by
  obtain ⟨q, hrun⟩ := D.divides_run s r
  rw [hlen, ← mul_add] at hrun
  constructor
  · intro hzero
    rw [hzero, zero_add] at hrun
    have hdvd := D.dvd_of_dvd_shift (Dvd.intro_left q hrun)
    have hdegree : (D.value s + message r).degree < D.generator.degree := by
      have hr := degree_message r
      rw [hlen] at hr
      rw [D.degree_generator]
      exact (degree_add_le _ _).trans_lt (max_lt (D.degree_value s) hr)
    exact (CharTwo.add_eq_zero.mp (eq_zero_of_dvd_of_degree_lt hdvd hdegree)).symm
  · intro heq
    rw [heq, CharTwo.add_self_eq_zero, mul_zero] at hrun
    have hdvd : D.generator ∣ D.value (D.run s r) := ⟨-q, by linear_combination hrun⟩
    exact eq_zero_of_dvd_of_degree_lt hdvd (D.degree_generator.symm ▸ D.degree_value _)

end Divider

end Checksum
