import BleedKernel.Lib.Loop
import BleedKernel.Model.Eventfd

/-!
# What counters count and when timers expire
-/

namespace BleedKernel.Eventfd

/-- The books balance. -/
structure Sound (initval : Nat) (semaphore : Bool) (s : Account) : Prop where
  le : s.e.count.toNat ≤ countMax.toNat
  sum : initval + s.given = s.taken + s.e.count.toNat
  mode : s.e.semaphore = semaphore

variable {n : Nat} {b ready : Bool} {s : Account} {sig : Signals} {v : UInt64}

theorem toNat_pos (h : v ≠ 0) : 0 < v.toNat :=
  Nat.pos_of_ne_zero fun h0 => h (UInt64.toNat_inj.mp h0)

theorem blockOn_ne_done : blockOn ready sig ≠ .done v := by
  unfold blockOn
  split
  · nofun
  · split <;> nofun

theorem blockOn_value : (blockOn ready sig).value = 0 := by
  cases h : blockOn ready sig with
  | done v => exact absurd h blockOn_ne_done
  | _ => rfl

theorem Sound.step (h : Sound n b s) (c : Call) : Sound n b (step s c) := by
  obtain ⟨hle, hsum, hmode⟩ := h
  cases c with
  | read size sig =>
    simp only [Eventfd.step, evRead]
    split
    · exact ⟨hle, hsum, hmode⟩
    split
    · rename_i hpos
      have hv : (if s.e.semaphore then 1 else s.e.count).toNat ≤ s.e.count.toNat := by
        split
        · exact toNat_pos hpos
        · exact Nat.le_refl _
      have hsub := UInt64.toNat_sub_of_le _ _ (UInt64.le_iff_toNat_le.mpr hv)
      exact ⟨by simp only [hsub]; omega, by simp only [Pass.value, hsub]; omega, hmode⟩
    split
    · exact ⟨hle, hsum, hmode⟩
    · exact ⟨hle, by rw [blockOn_value]; exact hsum, hmode⟩
  | write v size sig =>
    simp only [Eventfd.step, evWrite]
    split
    · exact ⟨hle, hsum, hmode⟩
    split
    · rename_i hroom
      have hmax : countMax.toNat < 2 ^ 64 := by decide
      have hsub := UInt64.toNat_sub_of_le _ _ (UInt64.le_iff_toNat_le.mpr hle)
      have hv := UInt64.le_iff_toNat_le.mp hroom
      have hadd : (s.e.count + v).toNat = s.e.count.toNat + v.toNat := by
        rw [UInt64.toNat_add]
        exact Nat.mod_eq_of_lt (by omega)
      exact ⟨by simp only [hadd]; omega, by simp only [Pass.value, hadd]; omega, hmode⟩
    split
    · exact ⟨hle, hsum, hmode⟩
    · exact ⟨hle, by rw [blockOn_value]; exact hsum, hmode⟩

/-- Whatever is read and written, the counter has what was given to it and not taken from it,
and does not overflow. A write that has to wait counts as blocked exactly when the counter is
full, and exactly then it sleeps if no signal comes. -/
theorem eventfd_balances (initval : UInt64) (semaphore nonblock : Bool) (h : initval.toNat < 2 ^ 32)
    (calls : List Call) :
    let s := calls.foldl step { e := ⟨initval, semaphore, nonblock⟩ }
    s.e.count.toNat ≤ 2 ^ 64 - 2 ∧ initval.toNat + s.given = s.taken + s.e.count.toNat ∧
      (∀ size sig v, semaphore = true → (evRead s.e size sig).1 = .done v → v = 1) ∧
      ∀ v, ¬countMax - s.e.count ≥ v → (evWritable s.e = false ↔ s.e.count = countMax) ∧
        ∀ size, 8 ≤ size → v ≠ 0xFFFFFFFFFFFFFFFF → s.e.nonblock = false →
          ((evWrite s.e v size {}).1 = .slept ↔ s.e.count = countMax) := by
  intro s
  have hinit : initval.toNat ≤ countMax.toNat := by
    have : 2 ^ 32 ≤ countMax.toNat := by decide
    omega
  obtain ⟨hle, hsum, hmode⟩ : Sound initval.toNat semaphore s :=
    Lib.foldl_inv (fun c _ _ hs => hs.step c) ⟨hinit, (Nat.zero_add _).symm, rfl⟩
  refine ⟨hle, hsum, ?_, ?_⟩
  · intro size sig v hb hv
    unfold evRead at hv
    split at hv
    · cases hv
    split at hv
    · rw [hmode, if_pos hb] at hv
      exact (Pass.done.inj hv).symm
    split at hv
    · cases hv
    · exact absurd hv blockOn_ne_done
  · intro v hroom
    have hfull : evWritable s.e = false ↔ s.e.count = countMax := by
      rw [evWritable, decide_eq_false_iff_not, UInt64.not_lt, UInt64.le_iff_toNat_le,
        ← UInt64.toNat_inj]
      omega
    refine ⟨hfull, fun size hsize hv hblock => ?_⟩
    rw [evWrite, if_neg (not_or.mpr ⟨Nat.not_lt.mpr hsize, hv⟩), if_neg hroom, hblock, ← hfull]
    show blockOn (evWritable s.e) {} = .slept ↔ evWritable s.e = false
    cases evWritable s.e <;> decide

theorem eventfd_balances_semaphore :
    let s := [.write 5 8 {}, .read 8 {}].foldl step { e := ⟨2, true, false⟩ }
    s.taken = 1 ∧ 2 + s.given = s.taken + s.e.count.toNat :=
  ⟨rfl, (eventfd_balances 2 true false (by decide) _).2.1⟩

/-- With 1 in it the counter takes no `2 ^ 64 - 2`, but it counts as writable. -/
theorem eventfd_write_spins :
    evWrite ⟨1, false, false⟩ countMax 8 {} = (.spun, ⟨1, false, false⟩) :=
  rfl

/-! ## Times -/

/-- The nanoseconds of a time. -/
def Timespec.total (ts : Timespec) : Nat := ts.sec.toNat * 1000000000 + ts.nsec.toNat

/-- The counts in that many nanoseconds, rounded down once. -/
def Clock.counts (c : Clock) (ns : Nat) : Nat := ns * 1000000 / c.femtosecondsPerTick.toNat

/-- The seconds and the rest are rounded down on their own, and do not lose a count by it. -/
abbrev Clock.Even (c : Clock) (ns : Nat) : Prop :=
  ns / 1000000000 * (1000000000000000 % c.femtosecondsPerTick.toNat)
    + ns % 1000000000 * 1000000 % c.femtosecondsPerTick.toNat < c.femtosecondsPerTick.toNat

variable {c : Clock} {ts value interval : Timespec} {ns : UInt64}

theorem ofInt_toNat {x : Int} (h : 0 ≤ x) : (UInt64.ofInt x).toNat = x.toNat % 2 ^ 64 := by
  rw [UInt64.ofInt, UInt64.toNat_ofNat']
  omega

theorem tsNs_toNat (hok : tsOk ts = true) : (tsNs ts).toNat = ts.total % 2 ^ 64 := by
  rw [tsOk, decide_eq_true_eq] at hok
  simp only [tsNs, UInt64.toNat_add, UInt64.toNat_mul, UInt64.reduceToNat, ofInt_toNat hok.1,
    ofInt_toNat hok.2.1, Timespec.total]
  omega

theorem div_split {q r s f : Nat} (h : 0 < f) :
    (q * s + r) / f = q * (s / f) + r / f + (q * (s % f) + r % f) / f := by
  have hs := Nat.div_add_mod s f
  have hr := Nat.div_add_mod r f
  have hsum : q * s + r = f * (q * (s / f) + r / f) + (q * (s % f) + r % f) := by grind
  rw [hsum, Nat.mul_add_div h]

theorem wrapped_le {x lost : Nat} : x % 2 ^ 64 ≤ x + lost ∧
    (x % 2 ^ 64 = x + lost ↔ lost = 0 ∧ x + lost < 2 ^ 64) := by
  omega

/-- The conversion never gives too many counts, and the right number exactly if the roundings
lose none and the number does not wrap. -/
theorem clockNsToCounts_toNat (hf : c.femtosecondsPerTick ≠ 0) (ns : UInt64) :
    (clockNsToCounts c ns).toNat ≤ c.counts ns.toNat ∧
      ((clockNsToCounts c ns).toNat = c.counts ns.toNat ↔
        c.Even ns.toNat ∧ c.counts ns.toNat < 2 ^ 64) := by
  have hpos : 0 < c.femtosecondsPerTick.toNat := toNat_pos hf
  have hsplit := div_split (q := ns.toNat / 1000000000) (r := ns.toNat % 1000000000 * 1000000)
    (s := 1000000000000000) hpos
  rw [show ns.toNat / 1000000000 * 1000000000000000 + ns.toNat % 1000000000 * 1000000
    = ns.toNat * 1000000 by omega] at hsplit
  have heven := Nat.div_eq_zero_iff_lt (x := ns.toNat / 1000000000 *
    (1000000000000000 % c.femtosecondsPerTick.toNat)
    + ns.toNat % 1000000000 * 1000000 % c.femtosecondsPerTick.toNat) hpos
  have hrest : ns.toNat % 1000000000 * 1000000 % 2 ^ 64 = ns.toNat % 1000000000 * 1000000 := by
    omega
  simp only [clockNsToCounts, if_neg hf, UInt64.toNat_add, UInt64.toNat_mul, UInt64.toNat_div,
    UInt64.toNat_mod, UInt64.reduceToNat, hrest, Nat.mod_add_mod, Clock.Even, Clock.counts, hsplit,
    ← heven]
  exact wrapped_le

theorem counts_lt {a b : Nat} (hf : c.femtosecondsPerTick ≠ 0) (h : a + 2 ^ 64 ≤ b) :
    c.counts a < c.counts b := by
  have hpos : 0 < c.femtosecondsPerTick.toNat := toNat_pos hf
  have hlt := c.femtosecondsPerTick.toNat_lt
  calc c.counts a < c.counts a + 1 := Nat.lt_succ_self _
    _ = (a * 1000000 + c.femtosecondsPerTick.toNat) / c.femtosecondsPerTick.toNat :=
      (Nat.add_div_right _ hpos).symm
    _ ≤ c.counts b := Nat.div_le_div_right (by omega)

/-- A timer that is set is armed for no earlier than the time asked for exactly if no number
wraps and the roundings lose no count. An absolute time that is too large for the clock is left
out: what it wraps to may be in the past just as the time itself. -/
theorem settime_exact_iff (t : Tfd) (abstime : Bool) (hv : tsOk value = true)
    (hi : tsOk interval = true) (hpos : 0 < value.total) (hf : c.femtosecondsPerTick ≠ 0)
    (habs : abstime = true → value.total < 2 ^ 64) :
    let rel := if abstime then value.total - c.ns.toNat else value.total
    (∃ t', timerfdSettime c t abstime value interval = .ok t' ∧ t'.armed = true ∧
      c.counter.toNat + c.counts rel ≤ t'.expire.toNat) ↔
    value.total < 2 ^ 64 ∧ c.Even rel ∧ c.counter.toNat + c.counts rel < 2 ^ 64 := by
  intro rel
  have htotal := tsNs_toNat hv
  simp only [timerfdSettime, hv, hi, Bool.not_true, Bool.or_false, Bool.false_eq_true, if_false]
  by_cases hns : value.total < 2 ^ 64
  · rw [Nat.mod_eq_of_lt hns] at htotal
    have hne : tsNs value ≠ 0 := by
      intro h0
      rw [h0] at htotal
      exact absurd htotal (Nat.ne_of_lt hpos)
    have hrel : (if abstime then (if tsNs value > c.ns then tsNs value - c.ns else 0)
        else tsNs value).toNat = rel := by
      cases abstime with
      | false => exact htotal
      | true =>
        simp only [if_true, rel, ← htotal]
        split
        · next hlt => exact UInt64.toNat_sub_of_le _ _ (UInt64.le_of_lt hlt)
        · next hle =>
          have := UInt64.le_iff_toNat_le.mp (UInt64.not_lt.mp hle)
          exact (Nat.sub_eq_zero_of_le this).symm
    rw [if_neg hne, and_iff_right hns]
    generalize (if abstime = true then (if tsNs value > c.ns then tsNs value - c.ns else 0)
      else tsNs value) = ns at hrel
    obtain ⟨hle, hexact⟩ := clockNsToCounts_toNat hf ns
    rw [hrel] at hle hexact
    constructor
    · rintro ⟨t', ⟨⟩, -, hexp⟩
      rw [UInt64.toNat_add] at hexp
      have hsum := Nat.mod_le (c.counter.toNat + (clockNsToCounts c ns).toNat) (2 ^ 64)
      have heq := Nat.le_antisymm hle (by omega)
      refine ⟨(hexact.mp heq).1, ?_⟩
      rw [heq] at hexp
      exact Nat.lt_of_le_of_lt hexp (Nat.mod_lt _ (by decide))
    · rintro ⟨heven, hroom⟩
      refine ⟨_, rfl, rfl, ?_⟩
      rw [UInt64.toNat_add, hexact.mpr ⟨heven, by omega⟩, Nat.mod_eq_of_lt hroom]
  · cases abstime with
    | true => exact absurd (habs rfl) hns
    | false =>
      refine iff_of_false ?_ fun h => hns h.1
      rintro ⟨t', ht, harm, hexp⟩
      split at ht
      · cases ht
        cases harm
      · cases ht
        -- the nanoseconds have wrapped, so there are fewer counts than asked for
        have hfew := counts_lt hf (a := (tsNs value).toNat) (b := value.total) (by omega)
        have hle := (clockNsToCounts_toNat hf (tsNs value)).1
        have hsum := Nat.mod_le (c.counter.toNat + (clockNsToCounts c (tsNs value)).toNat) (2 ^ 64)
        simp only [Bool.false_eq_true, if_false, UInt64.toNat_add, rel] at hexp
        omega

theorem settime_exact_iff_second : ∃ t', timerfdSettime ⟨100000000, 7, 0⟩ ⟨false, 0, 0, 0⟩ false
    ⟨1, 500000000⟩ ⟨0, 0⟩ = .ok t' ∧ t'.armed = true ∧ 7 + 15000000 ≤ t'.expire.toNat :=
  (settime_exact_iff _ false rfl rfl (by decide) (by decide) nofun).mpr
    ⟨by decide, by decide, by decide⟩

/-- `2 ^ 55` seconds disarm the timer, and two seconds of 69841279 fs ticks lose a count. -/
theorem settime_wraps : timerfdSettime ⟨100000000, 0, 0⟩ ⟨true, 9, 0, 0⟩ false
      ⟨36028797018963968, 0⟩ ⟨0, 0⟩ = .ok ⟨false, 9, 0, 0⟩ ∧
    timerfdSettime ⟨69841279, 0, 0⟩ ⟨false, 0, 0, 0⟩ false ⟨2, 0⟩ ⟨0, 0⟩
      = .ok ⟨true, 28636358, 0, 0⟩ ∧ 2000000000 * 1000000 / 69841279 = 28636359 := by
  decide

end BleedKernel.Eventfd
