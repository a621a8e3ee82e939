import JlrModel.Gate.Cache
import JlrModel.Measure.File

-- The times of files as they are compared by the gate, which multiplies, and by the measurements, which saturate.

-- The nanoseconds of a time are a part of a second.
def Int64.IsNsec (nsec : Int64) : Prop :=
  0 ≤ nsec.toInt ∧ nsec.toInt < 1000000000

-- Nothing overflows when the gate brings a time to nanoseconds.
def Gate.Exact (secs nsec : Int64) : Prop :=
  (secs * 1000000000).toInt = secs.toInt * 1000000000 ∧
  (secs * 1000000000 + nsec).toInt = (secs * 1000000000).toInt + nsec.toInt

-- The nanoseconds of a time fit into a signed word.
def Gate.Fits (secs nsec : Int64) : Prop :=
  -2 ^ 63 ≤ secs.toInt * 1000000000 ∧ secs.toInt * 1000000000 + nsec.toInt < 2 ^ 63

-- Two times of which the seconds before the epoch are the only difference.
def Stamp.Blurs (secs nsec secs' nsec' : Int64) : Prop :=
  nsec = nsec' ∧ (secs = secs' ∨ secs.toInt ≤ 0 ∧ secs'.toInt ≤ 0)

variable {secs nsec secs' nsec' : Int64}

namespace Gate

theorem exact_iff (hn : nsec.IsNsec) : Exact secs nsec ↔ Fits secs nsec := by
  have ⟨hn₀, hn₁⟩ := hn
  have hm : (secs * 1000000000).toInt = (secs.toInt * 1000000000).bmod (2 ^ 64) := Int64.toInt_mul ..
  have ha : (secs * 1000000000 + nsec).toInt = ((secs * 1000000000).toInt + nsec.toInt).bmod (2 ^ 64) := Int64.toInt_add ..
  have hl := Int64.le_toInt (secs * 1000000000)
  have hu := Int64.toInt_lt (secs * 1000000000)
  have hl' := Int64.le_toInt (secs * 1000000000 + nsec)
  have hu' := Int64.toInt_lt (secs * 1000000000 + nsec)
  constructor
  case mp =>
    rintro ⟨he, he'⟩
    rw [he] at hl he'
    rw [he'] at hu'
    exact ⟨hl, hu'⟩
  case mpr =>
    rintro ⟨hf, hf'⟩
    have he : (secs * 1000000000).toInt = secs.toInt * 1000000000 := by
      rw [hm]
      exact Int.bmod_eq_of_le (by omega) (by omega)
    refine ⟨he, ?_⟩
    rw [ha]
    exact Int.bmod_eq_of_le (by omega) (by omega)

-- Two times that the gate computes exactly are told apart.
theorem exact_inj (hn : nsec.IsNsec) (hn' : nsec'.IsNsec) (he : Exact secs nsec) (he' : Exact secs' nsec')
    (h : secs * 1000000000 + nsec = secs' * 1000000000 + nsec') : secs = secs' ∧ nsec = nsec' := by
  have ⟨hl, hu⟩ := hn
  have ⟨hl', hu'⟩ := hn'
  have h := congrArg Int64.toInt h
  rw [he.right, he'.right, he.left, he'.left] at h
  exact ⟨Int64.toInt_inj.mp (by omega), Int64.toInt_inj.mp (by omega)⟩

end Gate

-- `i64::max` with zero, as an unsigned word.
theorem Int64.toNat_nonneg (i : Int64) : ((if i < 0 then 0 else i.toUInt64 : UInt64).toNat : Int) = max i.toInt 0 := by
  have hi : i < 0 ↔ i.toInt < 0 := Int64.lt_iff_toInt_lt
  have hc : i.toInt = i.toBitVec.toInt := rfl
  have hb := BitVec.toInt_eq_toNat_cond i.toBitVec
  have hu : i.toUInt64.toNat = i.toBitVec.toNat := rfl
  have hl := i.toBitVec.isLt
  split
  case isTrue h =>
    have hz : (0 : UInt64).toNat = 0 := rfl
    have h := hi.mp h
    omega
  case isFalse h =>
    have h := mt hi.mpr h
    omega

-- The seconds before the epoch do not count, and what is too large is cut off.
theorem toNat_nowNs : ((nowNs secs nsec).toNat : Int) =
    min (min (max secs.toInt 0 * 1000000000) (2 ^ 64 - 1) + max nsec.toInt 0) (2 ^ 64 - 1) := by
  have hs := Int64.toNat_nonneg secs
  have hn := Int64.toNat_nonneg nsec
  have hg : (1000000000 : UInt64).toNat = 1000000000 := rfl
  rw [nowNs]
  dsimp only
  rw [UInt64.toNat_saturatingAdd, UInt64.toNat_saturatingMul, hg]
  omega

theorem toNat_nowNs_of_fits (hn : nsec.IsNsec) (hf : Gate.Fits secs nsec) :
    ((nowNs secs nsec).toNat : Int) = max secs.toInt 0 * 1000000000 + nsec.toInt := by
  have ⟨hn₀, hn₁⟩ := hn
  have ⟨hf₀, hf₁⟩ := hf
  rw [toNat_nowNs]
  omega

theorem Stamp.blurs_iff (hn : nsec.IsNsec) (hn' : nsec'.IsNsec) (hf : Gate.Fits secs nsec) (hf' : Gate.Fits secs' nsec') :
    nowNs secs nsec = nowNs secs' nsec' ↔ Blurs secs nsec secs' nsec' := by
  have ⟨hl, hu⟩ := hn
  have ⟨hl', hu'⟩ := hn'
  rw [← UInt64.toNat_inj, ← Int.natCast_inj, toNat_nowNs_of_fits hn hf, toNat_nowNs_of_fits hn' hf', Blurs, ← Int64.toInt_inj,
    ← Int64.toInt_inj]
  omega

namespace Metadata

variable {m m' : Metadata}

-- What the gate reads of the same file.
def toFileMeta (m : Metadata) : Gate.FileMeta where
  dev       := m.dev
  ino       := m.ino
  len       := m.len
  mtime     := m.mtime
  mtimeNsec := m.mtimeNsec
  ctime     := m.ctime
  ctimeNsec := m.ctimeNsec

structure Timed (m : Metadata) : Prop where
  mtime : m.mtimeNsec.IsNsec
  ctime : m.ctimeNsec.IsNsec

structure Exact (m : Metadata) : Prop where
  mtime : Gate.Exact m.mtime m.mtimeNsec
  ctime : Gate.Exact m.ctime m.ctimeNsec

structure Fits (m : Metadata) : Prop where
  mtime : Gate.Fits m.mtime m.mtimeNsec
  ctime : Gate.Fits m.ctime m.ctimeNsec

-- Both times are the same.
structure SameTimes (m m' : Metadata) : Prop where
  mtime     : m.mtime = m'.mtime
  mtimeNsec : m.mtimeNsec = m'.mtimeNsec
  ctime     : m.ctime = m'.ctime
  ctimeNsec : m.ctimeNsec = m'.ctimeNsec

-- The same size, inode and device, and times that a measurement does not tell apart.
structure Blurs (m m' : Metadata) : Prop where
  len   : m.len = m'.len
  ino   : m.ino = m'.ino
  dev   : m.dev = m'.dev
  mtime : Stamp.Blurs m.mtime m.mtimeNsec m'.mtime m'.mtimeNsec
  ctime : Stamp.Blurs m.ctime m.ctimeNsec m'.ctime m'.ctimeNsec

theorem exact_iff (h : m.Timed) : m.Exact ↔ m.Fits :=
  ⟨fun e => ⟨(Gate.exact_iff h.mtime).mp e.mtime, (Gate.exact_iff h.ctime).mp e.ctime⟩,
    fun f => ⟨(Gate.exact_iff h.mtime).mpr f.mtime, (Gate.exact_iff h.ctime).mpr f.ctime⟩⟩

theorem sameTimes_of_stamp (h : m.Timed) (h' : m'.Timed) (e : m.Exact) (e' : m'.Exact)
    (hs : m.toFileMeta.stamp = m'.toFileMeta.stamp) : m.SameTimes m' := by
  have ⟨_, hs⟩ := Prod.mk.inj hs
  have ⟨hm, hc⟩ := Prod.mk.inj hs
  have ⟨hm, hmn⟩ := Gate.exact_inj h.mtime h'.mtime e.mtime e'.mtime hm
  have ⟨hc, hcn⟩ := Gate.exact_inj h.ctime h'.ctime e.ctime e'.ctime hc
  exact ⟨hm, hmn, hc, hcn⟩

theorem blurs_iff (h : m.Timed) (h' : m'.Timed) (f : m.Fits) (f' : m'.Fits) : Stamp.of m = Stamp.of m' ↔ m.Blurs m' := by
  have hm := Stamp.blurs_iff h.mtime h'.mtime f.mtime f'.mtime
  have hc := Stamp.blurs_iff h.ctime h'.ctime f.ctime f'.ctime
  simp only [Stamp.of, Stamp.mk.injEq, hm, hc]
  exact ⟨fun ⟨hl, hm, hc, hi, hd⟩ => ⟨hl, hi, hd, hm, hc⟩, fun b => ⟨b.len, b.mtime, b.ctime, b.ino, b.dev⟩⟩

-- Times are computed without overflow and told apart, by the gate and by the measurements, exactly if they fit and do not
-- differ only before the epoch.
theorem times_told_apart_iff (m m' : Metadata) (h : m.Timed) (h' : m'.Timed) :
    (m.Exact ∧ m'.Exact ∧
      (¬ m.SameTimes m' → m.toFileMeta.stamp ≠ m'.toFileMeta.stamp ∧ Stamp.of m ≠ Stamp.of m')) ↔
    m.Fits ∧ m'.Fits ∧ (¬ m.SameTimes m' → ¬ m.Blurs m') := by
  rw [exact_iff h, exact_iff h']
  refine and_congr_right fun f => and_congr_right fun f' => imp_congr_right fun hn => ?_
  rw [Ne, Ne, blurs_iff h h' f f']
  exact and_iff_right fun hs => hn (sameTimes_of_stamp h h' ((exact_iff h).mpr f) ((exact_iff h').mpr f') hs)

end Metadata

-- A file whose owner sets its times, on a file system that keeps what was set.
namespace Edited

def file (mtime ctime : Int64) : Metadata where
  len       := 10
  mtime     := mtime
  mtimeNsec := 0
  ctime     := ctime
  ctimeNsec := 0
  ino       := 7
  dev       := 1

theorem timed_file (mtime ctime : Int64) : (file mtime ctime).Timed := by
  have h : (0 : Int64).IsNsec := ⟨by decide, by decide⟩
  exact ⟨h, h⟩

-- The stamp of the gate wraps around, and that of a measurement ends at the epoch.
theorem different_times_same_stamps :
    ¬ (file 0 0).SameTimes (file 36028797018963968 0) ∧ ¬ (file 36028797018963968 0).Exact ∧
    (file 0 0).toFileMeta.stamp = (file 36028797018963968 0).toFileMeta.stamp ∧
    ¬ (file (-1) 0).SameTimes (file 0 0) ∧ Stamp.of (file (-1) 0) = Stamp.of (file 0 0) := by
  have hm {a b : Int64} (h : a ≠ b) : ¬ (file a 0).SameTimes (file b 0) := fun s => h s.mtime
  refine ⟨hm (by decide), fun e => ?_, by decide, hm (by decide), by decide⟩
  exact absurd e.mtime.left (by decide)

theorem times_told_apart_edited :
    (file 1700000000 1700000000).toFileMeta.stamp ≠ (file 1700000000 1700000060).toFileMeta.stamp ∧
    Stamp.of (file 1700000000 1700000000) ≠ Stamp.of (file 1700000000 1700000060) := by
  have hf {secs : Int64} (h : 0 ≤ secs.toInt ∧ secs.toInt ≤ 1700000060) : Gate.Fits secs 0 := by
    have h₀ : (0 : Int64).toInt = 0 := rfl
    exact ⟨by omega, by omega⟩
  have h := Metadata.times_told_apart_iff (file 1700000000 1700000000) (file 1700000000 1700000060)
    (timed_file _ _) (timed_file _ _)
  refine (h.mpr ⟨⟨hf (by decide), hf (by decide)⟩, ⟨hf (by decide), hf (by decide)⟩, fun _ b => ?_⟩).right.right ?_
  · exact absurd b.ctime (by simp only [Stamp.Blurs]; decide)
  · exact fun s => absurd s.ctime (by decide)

end Edited
