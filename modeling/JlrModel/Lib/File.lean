import JlrModel.Lib.Bytes

-- The text of an error of the operating system.
abbrev IoError := String

-- The content of a file. No file has more bytes than a signed 64-bit offset can address.
@[ext]
structure File where
  data    : Bytes
  size_lt : data.length < 2 ^ 63

namespace File

def empty : File where
  data    := []
  size_lt := by decide

-- Adds bytes at the end, unless the file gets too large.
def extend (f : File) (bytes : Bytes) : Option File :=
  if h : (f.data ++ bytes).length < 2 ^ 63 then some ⟨f.data ++ bytes, h⟩ else none

-- Cuts a file back to a length that is not larger than its own.
def truncate (f : File) (len : Nat) : File where
  data    := f.data.take len
  size_lt := (List.length_take_le' _ _).trans_lt f.size_lt

end File

-- A file that is read through a descriptor while others may change it. What a read returns depends on the number of
-- reads before it and on the offset, which never goes past the largest one.
structure Reader (ε : Type) where
  read : Nat → Nat → Except ε Bytes
  fits : ∀ i offset chunk, offset < 2 ^ 63 → read i offset = .ok chunk → offset + chunk.length < 2 ^ 63

namespace Reader

variable {ε ε' : Type}

-- The same reads, with other errors.
def mapError (g : ε → ε') (r : Reader ε) : Reader ε' where
  read i offset := (r.read i offset).mapError g
  fits i offset chunk ho h := by
    apply r.fits i offset chunk ho
    match hr : r.read i offset with
    | .ok _    => rw [hr] at h; cases h; rfl
    | .error _ => rw [hr] at h; cases h

-- Reads to the end, and writes every chunk that it reads to a copy. Stops when the copy would be larger than the limit.
def copy (limit : UInt64) (tooLarge : UInt64 → ε) (r : Reader ε) (write : Nat → Bytes → Except ε Unit) (i : Nat)
    (f : File) : Except ε File :=
  match h : r.read i f.data.length with
  | .error e  => .error e
  | .ok []    => .ok f
  | .ok (b :: bs) =>
    let f' : File := ⟨f.data ++ b :: bs, by
      have := r.fits _ _ _ f.size_lt h
      rwa [List.length_append]⟩
    let total := UInt64.ofNat f'.data.length
    if limit < total then
      .error (tooLarge total)
    else
      match write i (b :: bs) with
      | .error e => .error e
      | .ok ()   => copy limit tooLarge r write (i + 1) f'
termination_by 2 ^ 63 - f.data.length
decreasing_by
  have := f'.size_lt
  simp [f'] at this ⊢
  omega

-- The same with a copy that is also there if that fails. A write that fails says how many bytes it has written.
def transfer (limit : UInt64) (tooLarge : UInt64 → ε) (r : Reader ε) (write : Nat → Bytes → Except (ε × Nat) Unit)
    (i : Nat) (f : File) : Except ε Unit × File :=
  match h : r.read i f.data.length with
  | .error e  => (.error e, f)
  | .ok []    => (.ok (), f)
  | .ok (b :: bs) =>
    let f' : File := ⟨f.data ++ b :: bs, by
      have := r.fits _ _ _ f.size_lt h
      rwa [List.length_append]⟩
    let total := UInt64.ofNat f'.data.length
    if limit < total then
      (.error (tooLarge total), f)
    else
      match write i (b :: bs) with
      | .error (e, n) => (.error e, f'.truncate (f.data.length + n))
      | .ok ()        => transfer limit tooLarge r write (i + 1) f'
termination_by 2 ^ 63 - f.data.length
decreasing_by
  have := f'.size_lt
  simp [f'] at this ⊢
  omega

-- The offset after a number of reads, as long as none of them fails.
def offset (r : Reader ε) : Nat → Option Nat
  | 0     => some 0
  | i + 1 => do
    let offset ← r.offset i
    let chunk ← (r.read i offset).toOption
    return offset + chunk.length

-- The first offset past a limit.
def Crosses (r : Reader ε) (limit offset : Nat) : Prop :=
  ∃ i start, r.offset i = some start ∧ start ≤ limit ∧ r.offset (i + 1) = some offset ∧ limit < offset

-- A reader that gives nothing but the bytes of a stream, in chunks of any size, and stops only at its end.
structure Splits (r : Reader ε) (stream : Bytes) : Prop where
  chunk : ∀ i offset chunk, r.read i offset = .ok chunk → chunk <+: stream.drop offset
  stop  : ∀ i offset, r.read i offset = .ok [] → stream.length ≤ offset

-- A reader that never fails.
def Reliable (r : Reader ε) : Prop :=
  ∀ i offset e, r.read i offset ≠ .error e

-- Nothing that is written fails.
def Accepts (write : Nat → Bytes → Except ε Unit) : Prop :=
  ∀ i bytes e, write i bytes ≠ .error e

-- A file that nobody changes, which is read at once.
def still (f : File) : Reader ε where
  read _ offset := .ok (f.data.drop offset)
  fits i offset chunk ho h := by
    cases h
    have := f.size_lt
    rw [List.length_drop]
    omega

-- A file that nobody changes, of which every read gives at most a number of bytes.
def chunks (n : Nat) (f : File) : Reader ε where
  read _ offset := .ok ((f.data.drop offset).take n)
  fits i offset chunk ho h := by
    cases h
    have := f.size_lt
    rw [List.length_take, List.length_drop]
    omega

theorem splits_chunks {n : Nat} (h : 0 < n) (f : File) : (chunks n f : Reader ε).Splits f.data where
  chunk i offset chunk hc := by
    cases hc
    exact List.take_prefix _ _
  stop i offset hc        := by
    have he : (f.data.drop offset).take n = [] := Except.ok.inj hc
    rw [List.take_eq_nil_iff, List.drop_eq_nil_iff] at he
    exact he.resolve_left (Nat.ne_of_gt h)

theorem reliable_chunks {n : Nat} (f : File) : (chunks n f : Reader ε).Reliable :=
  nofun

section

variable {limit : UInt64} {tooLarge : UInt64 → ε} {r : Reader ε} {write : Nat → Bytes → Except ε Unit} {i : Nat}
  {f f' : File}

theorem copy_end (h : r.read i f.data.length = .ok []) : r.copy limit tooLarge write i f = .ok f := by
  rw [copy]
  split <;> simp_all

theorem copy_cons {b : UInt8} {bs : Bytes} (f' : File) (h : r.read i f.data.length = .ok (b :: bs))
    (hf : f'.data = f.data ++ b :: bs) :
    r.copy limit tooLarge write i f =
      if limit < UInt64.ofNat f'.data.length then .error (tooLarge (.ofNat f'.data.length))
      else
        match write i (b :: bs) with
        | .error e => .error e
        | .ok ()   => r.copy limit tooLarge write (i + 1) f' := by
  rw [copy]
  split
  case h_1 he => cases h.symm.trans he
  case h_2 he => cases h.symm.trans he
  case h_3 he =>
    cases h.symm.trans he
    cases f'
    cases hf
    rfl

theorem copy_chunk {b : UInt8} {bs : Bytes} (h : r.read i f.data.length = .ok (b :: bs))
    (hf : f'.data = f.data ++ b :: bs) (hl : UInt64.ofNat f'.data.length ≤ limit) (hw : write i (b :: bs) = .ok ()) :
    r.copy limit tooLarge write i f = r.copy limit tooLarge write (i + 1) f' := by
  rw [copy_cons f' h hf, if_neg (UInt64.not_lt.mpr hl), hw]

theorem copy_still (h : UInt64.ofNat f.data.length ≤ limit) :
    (still f).copy limit tooLarge (fun _ _ => .ok ()) 0 .empty = .ok f := by
  match hd : f.data with
  | []      =>
    have hf : f = .empty := File.ext hd
    rw [hf]
    exact copy_end rfl
  | b :: bs =>
    have hr : (still (ε := ε) f).read 0 0 = .ok (b :: bs) := congrArg Except.ok hd
    have hc : f.data = File.empty.data ++ b :: bs := hd
    rw [copy_chunk hr hc h rfl]
    exact copy_end (congrArg Except.ok (List.drop_length (l := f.data)))

theorem copy_eq_transfer {write : Nat → Bytes → Except (ε × Nat) Unit} :
    r.copy limit tooLarge (fun i bytes => (write i bytes).mapError Prod.fst) i f =
      (r.transfer limit tooLarge write i f).1.map fun _ => (r.transfer limit tooLarge write i f).2 := by
  fun_induction transfer limit tooLarge r write i f
  case case1 i f e h =>
    rw [copy]
    split <;> simp_all [Except.map]
  case case2 i f h => exact copy_end h
  case case3 i f b bs h f' total hl =>
    rw [copy_cons f' h rfl, if_pos hl]
    rfl
  case case4 i f b bs h f' total hl e n hw =>
    rw [copy_cons f' h rfl, if_neg hl, hw]
    rfl
  case case5 i f b bs h f' total hl hw ih =>
    rw [copy_chunk h rfl (UInt64.not_lt.mp hl) (by rw [hw]; rfl)]
    exact ih

theorem offset_mono {start offset k : Nat} (h : r.offset i = some start) (h' : r.offset (i + k) = some offset) :
    start ≤ offset := by
  induction k generalizing offset
  case zero =>
    rw [Nat.add_zero, h] at h'
    cases h'
    exact le_rfl
  case succ k ih =>
    have ⟨o, ho, hr⟩ := Option.bind_eq_some_iff.mp h'
    have ⟨chunk, _, hr⟩ := Option.bind_eq_some_iff.mp hr
    cases hr
    exact (ih ho).trans (Nat.le_add_right _ _)

theorem offset_lt {o : Nat} (h : r.offset i = some o) : o < 2 ^ 63 := by
  induction i generalizing o
  case zero =>
    cases h
    decide
  case succ i ih =>
    have ⟨o', ho', hr⟩ := Option.bind_eq_some_iff.mp h
    have ⟨chunk, hc, hr⟩ := Option.bind_eq_some_iff.mp hr
    cases hr
    match hread : r.read i o' with
    | .ok chunk' =>
      rw [hread] at hc
      cases hc
      exact r.fits _ _ _ (ih ho') hread
    | .error _   =>
      rw [hread] at hc
      cases hc

theorem Crosses.lt {limit o : Nat} (h : r.Crosses limit o) : o < 2 ^ 63 := by
  have ⟨i, _, _, _, ho, _⟩ := h
  exact offset_lt ho

theorem Crosses.unique {limit o o' : Nat} (h : r.Crosses limit o) (h' : r.Crosses limit o') : o = o' := by
  have ⟨i, s, hs, hsl, ho, hol⟩ := h
  have ⟨i', s', hs', hsl', ho', hol'⟩ := h'
  rcases Nat.lt_trichotomy i i' with hlt | rfl | hlt
  · obtain ⟨k, rfl⟩ := Nat.exists_eq_add_of_le hlt
    have := offset_mono ho hs'
    omega
  · exact Option.some.inj (ho.symm.trans ho')
  · obtain ⟨k, rfl⟩ := Nat.exists_eq_add_of_le hlt
    have := offset_mono ho' hs
    omega

-- How a copy of a stream can end.
structure Transfers (r : Reader ε) (write : Nat → Bytes → Except (ε × Nat) Unit) (limit : UInt64)
    (tooLarge : UInt64 → ε) (stream : Bytes) (res : Except ε Unit × File) : Prop where
  part  : res.2.data <+: stream
  size  : res.2.data.length ≤ limit.toNat
  ok    : res.1 = .ok () → res.2.data = stream
  error : ∀ e, res.1 = .error e → (∃ i o, r.read i o = .error e) ∨ (∃ i bytes n, write i bytes = .error (e, n)) ∨
    ∃ o, o ≤ stream.length ∧ r.Crosses limit.toNat o ∧ e = tooLarge (.ofNat o)

theorem Splits.step (hs : r.Splits stream) {chunk : Bytes} (f' : File) (h : r.read i f.data.length = .ok chunk)
    (hf : f'.data = f.data ++ chunk) (ho : r.offset i = some f.data.length) (hp : f.data <+: stream) :
    f'.data <+: stream ∧ r.offset (i + 1) = some f'.data.length ∧
      (UInt64.ofNat f'.data.length).toNat = f'.data.length := by
  refine ⟨?_, ?_, UInt64.toNat_ofNat_of_lt' (f'.size_lt.trans (by decide))⟩
  · have ⟨rest, hr⟩ := hp
    have hc := hs.chunk _ _ _ h
    rw [← hr, List.drop_left] at hc
    rw [hf, ← hr]
    exact (List.prefix_append_right_inj _).mpr hc
  · rw [offset, ho, hf, List.length_append]
    change (r.read i f.data.length).toOption.bind _ = _
    rw [h]
    rfl

theorem transfer_transfers {write : Nat → Bytes → Except (ε × Nat) Unit} (hs : r.Splits stream)
    (ho : r.offset i = some f.data.length) (hp : f.data <+: stream) (hl : f.data.length ≤ limit.toNat) :
    Transfers r write limit tooLarge stream (r.transfer limit tooLarge write i f) := by
  fun_induction transfer limit tooLarge r write i f
  case case1 i f e h =>
    refine ⟨hp, hl, nofun, fun e' he => .inl ⟨i, f.data.length, ?_⟩⟩
    cases he
    exact h
  case case2 i f h =>
    refine ⟨hp, hl, fun _ => hp.eq_of_length_le (hs.stop _ _ h), nofun⟩
  case case3 i f b bs h f' total hl' =>
    have ⟨hp', ho', hn⟩ := hs.step f' h rfl ho hp
    refine ⟨hp, hl, nofun, fun e he => .inr (.inr ⟨f'.data.length, hp'.length_le, ⟨i, _, ho, hl, ho', ?_⟩, ?_⟩)⟩
    · exact hn ▸ UInt64.lt_iff_toNat_lt.mp hl'
    · cases he
      rfl
  case case4 i f b bs h f' total hl' e n hw =>
    have ⟨hp', _, hn⟩ := hs.step f' h rfl ho hp
    refine ⟨(List.take_prefix _ _).trans hp', ?_, nofun, fun e' he => .inr (.inl ⟨i, b :: bs, n, ?_⟩)⟩
    · exact (List.length_take_le' _ _).trans (hn ▸ UInt64.le_iff_toNat_le.mp (UInt64.not_lt.mp hl'))
    · cases he
      exact hw
  case case5 i f b bs h f' total hl' hw ih =>
    have ⟨hp', ho', hn⟩ := hs.step f' h rfl ho hp
    exact ih ho' hp' (hn ▸ UInt64.le_iff_toNat_le.mp (UInt64.not_lt.mp hl'))

namespace Transfers

variable {write : Nat → Bytes → Except (ε × Nat) Unit} {stream : Bytes} {res : Except ε Unit × File}

-- Without errors of others, only the limit can stop it.
theorem crosses (h : Transfers r write limit tooLarge stream res) (hr : r.Reliable)
    (hw : Accepts write) {e : ε} (he : res.1 = .error e) :
    ∃ o, o ≤ stream.length ∧ r.Crosses limit.toNat o ∧ e = tooLarge (.ofNat o) := by
  rcases h.error e he with ⟨i, o, h⟩ | ⟨i, bytes, n, h⟩ | h
  · exact absurd h (hr i o e)
  · exact absurd h (hw i bytes (e, n))
  · exact h

theorem of_le (h : Transfers r write limit tooLarge stream res) (hr : r.Reliable)
    (hw : Accepts write) (hl : stream.length ≤ limit.toNat) :
    res.1 = .ok () ∧ res.2.data = stream := by
  match he : res.1 with
  | .ok ()   => exact ⟨rfl, h.ok he⟩
  | .error e =>
    have ⟨o, ho, ⟨_, _, _, _, _, hlt⟩, _⟩ := h.crosses hr hw he
    omega

theorem of_lt (h : Transfers r write limit tooLarge stream res) (hr : r.Reliable)
    (hw : Accepts write) (hl : limit.toNat < stream.length) :
    ∃ o, o ≤ stream.length ∧ r.Crosses limit.toNat o ∧ res.1 = .error (tooLarge (.ofNat o)) := by
  match he : res.1 with
  | .ok ()   =>
    have := h.size
    rw [h.ok he] at this
    omega
  | .error e =>
    have ⟨o, ho, hc, heq⟩ := h.crosses hr hw he
    exact ⟨o, ho, hc, heq ▸ rfl⟩

end Transfers

-- Other errors change nothing else.

variable {g : ε → ε'}

theorem read_mapError {o : Nat} {chunk : Bytes} : (r.mapError g).read i o = .ok chunk ↔ r.read i o = .ok chunk := by
  change (r.read i o).mapError g = .ok chunk ↔ _
  cases r.read i o <;> simp [Except.mapError]

theorem Splits.mapError {stream : Bytes} (h : r.Splits stream) : (r.mapError g).Splits stream where
  chunk i o chunk hc := h.chunk i o chunk (read_mapError.mp hc)
  stop i o hc        := h.stop i o (read_mapError.mp hc)

theorem Reliable.mapError (h : r.Reliable) : (r.mapError g).Reliable := by
  intro i o e he
  match hr : r.read i o with
  | .ok chunk => cases he.symm.trans (read_mapError.mpr hr)
  | .error e  => exact h i o e hr

theorem Accepts.mapError {write : Nat → Bytes → Except ε Unit} (h : Accepts write) (g : ε → ε') :
    Accepts fun i bytes => (write i bytes).mapError g := by
  intro i bytes e he
  change (write i bytes).mapError g = .error e at he
  match hw : write i bytes with
  | .ok ()   =>
    rw [hw] at he
    cases he
  | .error e => exact h i bytes e hw

theorem offset_mapError : (r.mapError g).offset i = r.offset i := by
  induction i
  case zero => rfl
  case succ i ih =>
    rw [offset, offset, ih]
    refine congrArg (Option.bind _) (funext fun o => ?_)
    change ((r.read i o).mapError g).toOption.bind _ = (r.read i o).toOption.bind _
    cases r.read i o <;> rfl

theorem crosses_mapError {n o : Nat} : (r.mapError g).Crosses n o ↔ r.Crosses n o := by
  simp only [Crosses, offset_mapError]

end

end Reader
