import JlrModel.Engine.Theorems.Revoke

-- When an object of the store that has been damaged is written again.

open Cbor Program Relation

section

variable [Crypto] {kind kind' : ObjectKind} {data data' : Bytes}

namespace StateDir

variable {dir dir₁ dir₂ : StateDir} {r : EpnRecord}

-- An object that has the right length also has the right content.
def Repairable (dir : StateDir) (kind : ObjectKind) (data : Bytes) : Prop :=
  ∀ f, dir.objects kind (Digest.of data) = some f → f.data.length = data.length → f.data = data

-- An object is as it was, or it was not intact and is right now.
def Mends (kind : ObjectKind) (data : Bytes) (dir dir' : StateDir) : Prop :=
  dir'.objects kind (Digest.of data) = dir.objects kind (Digest.of data) ∨
  ¬ dir.Intact kind data ∧ ∃ f, dir'.objects kind (Digest.of data) = some f ∧ f.data = data

theorem Mends.trans (h : Mends kind data dir dir₁) (h' : Mends kind data dir₁ dir₂) : Mends kind data dir dir₂ := by
  rcases h with h | ⟨hi, f, hf, hd⟩
  · rcases h' with h' | ⟨hi', h'⟩
    · exact .inl (h'.trans h)
    · rw [Intact, h] at hi'
      exact .inr ⟨hi', h'⟩
  · rcases h' with h' | ⟨hi', _⟩
    · exact .inr ⟨hi, f, h'.trans hf, hd⟩
    · exact absurd ⟨f, hf, congrArg _ hd⟩ hi'

theorem Mends.intact (h : Mends kind data dir dir₁) (hi : dir.Intact kind data) : dir₁.Intact kind data := by
  rcases h with h | ⟨hi', _⟩
  · rw [Intact, h]
    exact hi
  · exact absurd hi hi'

theorem Mends.repairable_iff (h : Mends kind data dir dir₁) : dir₁.Repairable kind data ↔ dir.Repairable kind data := by
  rcases h with h | ⟨hi, f, hf, hd⟩
  · rw [Repairable, Repairable, h]
  · refine iff_of_true (fun f' hf' _ => ?_) fun f' hf' hl => absurd ⟨f', hf', hl⟩ hi
    cases hf.symm.trans hf'
    exact hd

-- Only its own object is ever written.
theorem putFile_mends (hn : kind' ≠ kind ∨ Digest.of data' ≠ Digest.of data ∨ data' = data)
    (hi : ¬ dir.Intact kind' data') {f : File} (hf : f.data = data') :
    Mends kind data dir (dir.putFile kind' (Digest.of data') f) := by
  by_cases hk : kind = kind'
  case neg => exact .inl (congrFun (objects_putFile_of_ne hk) _)
  case pos =>
    subst hk
    have ho : (dir.putFile kind (Digest.of data') f).objects kind =
        Function.update (dir.objects kind) (Digest.of data') (some f) := Function.update_self ..
    rcases hn with hk | hd | he
    · exact absurd rfl hk
    · refine .inl ?_
      rw [ho, Function.update_of_ne (Ne.symm hd)]
    · subst he
      refine .inr ⟨hi, f, ?_, hf⟩
      rw [ho, Function.update_self]

-- What is intact can be read exactly if it is not damaged in another way.
theorem Intact.getObject_iff (h : dir.Intact kind data) :
    dir.getObject kind (Digest.of data) = some data ↔ dir.Repairable kind data := by
  obtain ⟨f, hf, hl⟩ := h
  rw [getObject, hf, Option.map_some, Option.filter_eq_some_iff]
  constructor
  case mp =>
    rintro ⟨hd, _⟩ f' hf' _
    cases hf.symm.trans hf'
    exact Option.some.inj hd
  case mpr =>
    intro hr
    have hd := hr f hf hl
    exact ⟨congrArg some hd, decide_eq_true rfl⟩

theorem loadRecord_iff (h : dir.Intact .epn (toCbor r)) :
    dir.loadRecord r.id = some r ↔ dir.Repairable .epn (toCbor r) := by
  have ⟨f, hf, hl⟩ := h
  rw [← h.getObject_iff]
  constructor
  case mp =>
    intro hr
    have ⟨bytes, hb, hr⟩ := Option.bind_eq_some_iff.mp hr
    have he := toCbor_of_fromCbor (Except.toOption_eq_some.mp hr)
    exact hb.trans (congrArg some he.symm)
  case mpr =>
    intro hg
    have hlt : (toCbor r).length < 2 ^ 64 := hl ▸ f.size_lt.trans (by decide)
    have hr := fromCbor_toCbor (by decide) (RecordType.valid_of_capabilities (t := .epnRecord) (r := r) nofun) hlt
    exact Option.bind_eq_some_iff.mpr ⟨_, hg, Except.toOption_eq_some.mpr hr⟩

end StateDir

namespace Host

variable {h h' : Host}

theorem putObject_mends (hn : kind' ≠ kind ∨ Digest.of data' ≠ Digest.of data ∨ data' = data) :
    Does (fun h h' : Host => StateDir.Mends kind data h.dir h'.dir) (putObject kind' data') := by
  intro h
  rw [putObject, view_bind]
  by_cases hi : (h.dir.objects kind' (Digest.of data')).any (·.data.length = data'.length)
  case pos =>
    rw [hi]
    exact .refl
  case neg =>
    refine Does.bind_at ?_ fun _ _ _ => .refl
    rw [onlyIf, if_pos hi]
    have hp (f : File) (hf : f.data = data') := StateDir.putFile_mends hn (mt StateDir.intact_iff.mp hi) hf
    obtain ⟨_, h₁, q, hx⟩ | ⟨f, hf, hx | ⟨_, hx⟩⟩ :=
      writeAtomic_cases data' (StateDir.putFile kind' (Digest.of data')) h <;> rw [hx]
    · exact .single (.inl (congrFun (congrFun (q.dir.same (f := StateDir.objects) fun _ _ => rfl) _) _))
    · exact .single (hp f hf)
    · exact .single (hp f hf)

theorem mends_of_ok {x : HostM α} {a : α} (hd : Does (fun h h' : Host => StateDir.Mends kind data h.dir h'.dir) x)
    (hx : x h = (.ok a, h')) : StateDir.Mends kind data h.dir h'.dir := by
  have hd := hd.of_ok hx
  clear hx
  induction hd
  case refl => exact .inl rfl
  case tail hm ih => exact ih.trans hm

end Host

-- The records of artifacts, each of which is stored whenever the artifact is seen.
def Machine.Mends (data : Bytes) (m m' : Machine) : Prop :=
  StateDir.Mends .epn data m.dir m'.dir

theorem Machine.Spares.mends {S : Set EpnId} {m m' : Machine} (s : m.Spares S m') : m.Mends data m' :=
  .inl (congrFun s.records _)

theorem Machine.Mends.of_reflTransGen {m m' : Machine} (h : ReflTransGen (Machine.Mends data) m m') :
    m.Mends data m' := by
  induction h
  case refl => exact .inl rfl
  case tail h ih => exact ih.trans h

namespace Engine

variable {m m' : Machine} {seen : Seen} {requested : List Capability}

theorem does_mends {S : Set EpnId} {x : EngineM α} (h : Does (Machine.Spares S) x) : Does (Machine.Mends data) x :=
  h.mono fun _ _ => Machine.Spares.mends

theorem storeRecord_mends {r : EpnRecord} (hn : Digest.of (toCbor r) = Digest.of data → toCbor r = data) :
    Does (Machine.Mends data) (storeRecord r) := by
  have hn : ObjectKind.epn ≠ .epn ∨ Digest.of (toCbor r) ≠ Digest.of data ∨ toCbor r = data :=
    .inr (Decidable.not_or_of_imp hn)
  exact .bind .view fun _ => .bind ((Host.putObject_mends hn).zoom (fun _ => rfl) fun _ _ _ h => h) fun _ => .pure

theorem process_mends (hn : Digest.of (toCbor seen.record) = Digest.of data → toCbor seen.record = data) :
    Does (Machine.Mends data) (process seen requested) := by
  refine .bind (does_mends replaced_spares) fun _ => .bind (storeRecord_mends hn) fun _ => .bind .view fun _ => ?_
  refine .bind (does_mends (evaluateNow_spares (S := ∅))) fun _ => .bind (does_mends settle_spares) fun _ => ?_
  refine .bind (does_mends (now_spares (S := ∅))) fun _ => .bind .view fun _ => ?_
  exact .bind (does_mends (setRow_spares (S := ∅))) fun _ => .pure

theorem scanFile_mends {r : ScanReport × List Seen} {t : Target}
    (hn : ∀ obs, t.observed = .ok obs → Digest.of (toCbor obs.record) = Digest.of data → toCbor obs.record = data) :
    Does (Machine.Mends data) (scanFile true false r t) := by
  unfold scanFile
  cases t.metadata
  case none => exact .pure
  case some metadata =>
    refine .bind .pure fun skip => .ite (fun _ => .pure) fun _ => ?_
    cases ho : t.observed
    case error => exact .pure
    case ok obs =>
      intro m
      refine Does.bind_at (does_mends (.bind (now_spares (S := ∅)) fun _ => .pure) m) fun seen m' hs => ?_
      exact Does.bind (process_mends (seenFrom_record hs ▸ hn obs ho)) (fun _ => .pure) m'

-- A file that can be observed is not skipped by a full scan.
theorem scanFile_intact {r r' : ScanReport × List Seen} {t : Target} {metadata : Metadata} {obs : Observation}
    (hm : t.metadata = some metadata) (ho : t.observed = .ok obs)
    (h : scanFile true false r t m = (.ok r', m')) : m'.dir.Intact .epn (toCbor obs.record) := by
  rw [scanFile, hm, ho] at h
  have ⟨skip, m₁, hs, h⟩ := bind_eq_ok.mp h
  cases hs
  have ⟨seen, m₂, hs, h⟩ := bind_eq_ok.mp h
  have ⟨p, m₃, hp, h⟩ := bind_eq_ok.mp h
  cases h
  exact seenFrom_record hs ▸ process_intact hp

theorem scan_intact {files : List Target} {report : ScanReport} {t : Target} {metadata : Metadata} {obs : Observation}
    (hn : ∀ t ∈ files, ∀ obs', t.observed = .ok obs' →
      Digest.of (toCbor obs'.record) = Digest.of (toCbor obs.record) → toCbor obs'.record = toCbor obs.record)
    (ht : t ∈ files) (hm : t.metadata = some metadata) (ho : t.observed = .ok obs)
    (h : scan files true m = (.ok report, m')) :
    m.Mends (toCbor obs.record) m' ∧ m'.dir.Intact .epn (toCbor obs.record) := by
  let data := toCbor obs.record
  have hd : ∀ b, ∀ t ∈ files, Does (Machine.Mends data) (scanFile true false b t) :=
    fun _ t ht => scanFile_mends (hn t ht)
  have hsync (sync : Bool) : Does (Machine.Spares ∅) (setSync sync) := onHost_spares (.update fun _ => rfl)
  have hsave : Does (Machine.Spares ∅) saveIndex :=
    .bind .view fun _ => onHost_spares (Host.writeAtomic_does (fun _ => rfl) fun _ _ _ => rfl)
  have ⟨_, _, h, hm'⟩ := bind_eq_ok.mp h
  cases hm'
  have ⟨_, m₁, h₁, h⟩ := bind_eq_ok.mp h
  have ⟨result, m₂, hr, h⟩ := bind_eq_ok.mp h
  have ⟨_, m₃, h₃, h⟩ := bind_eq_ok.mp h
  have ⟨_, m₄, h₄, h⟩ := bind_eq_ok.mp h
  have ⟨_, m₅, h₅, h⟩ := bind_eq_ok.mp h
  have ⟨hr', hm₅⟩ := ofExcept_eq_ok.mp h
  rw [Except.mapError_eq_ok.mp hr'] at hr
  have hr := attempt_eq_ok.mp hr
  have ⟨b, n₁, b', n₂, _, hx, ha⟩ := Does.fold_mem hd ht hr
  have hs : m₂.Spares ∅ m₅ := .trans (.of_ok (hsync true) h₃) <| .trans (.of_ok flush_spares h₄) (.of_ok hsave h₅)
  have hm₂ : m₂.Mends data m₅ := hs.mends
  rw [← hm₅]
  constructor
  · have hm₁ : m.Mends data m₁ := (Machine.Spares.of_ok (hsync false) h₁).mends
    exact hm₁.trans <| .trans (Machine.Mends.of_reflTransGen ((Does.fold hd _).of_ok hr)) hm₂
  · exact hm₂.intact ((Machine.Mends.of_reflTransGen ha).intact (scanFile_intact hm ho hx))

theorem objects_repaired :
    (∀ (h h' : Host) (kind : ObjectKind) (data : Bytes) (d : Digest), Host.putObject kind data h = (.ok d, h') →
      (h'.dir.getObject kind d = some data ↔ h.dir.Repairable kind data)) ∧
    (∀ (seen : Seen) (requested : List Capability) (m m' : Machine) (p : Processed),
      process seen requested m = (.ok p, m') →
      (m'.dir.loadRecord seen.record.id = some seen.record ↔ m.dir.Repairable .epn (toCbor seen.record))) ∧
    (∀ (files : List Target) (m m' : Machine) (report : ScanReport), scan files true m = (.ok report, m') →
      ∀ t ∈ files, ∀ metadata obs, t.metadata = some metadata → t.observed = .ok obs →
        Set.InjOn Digest.of {bytes | ∃ t ∈ files, ∃ obs, t.observed = .ok obs ∧ bytes = toCbor obs.record} →
        (m'.dir.loadRecord obs.record.id = some obs.record ↔ m.dir.Repairable .epn (toCbor obs.record)) ∧
        (m.dir.Repairable .epn (toCbor obs.record) → ∀ kind, unchecked m'.dir kind obs.record.id = false)) := by
  refine ⟨fun h h' kind data d hx => ?_, fun seen requested m m' p hx => ?_, ?_⟩
  · have ⟨hd, hi⟩ := Host.putObject_intact hx
    have hm : StateDir.Mends kind data h.dir h'.dir :=
      Host.mends_of_ok (Host.putObject_mends (.inr (.inr rfl))) hx
    rw [hd, hi.getObject_iff]
    exact hm.repairable_iff
  · have hm : m.Mends (toCbor seen.record) m' := .of_reflTransGen ((process_mends fun _ => rfl).of_ok hx)
    rw [StateDir.loadRecord_iff (process_intact hx)]
    exact hm.repairable_iff
  · intro files m m' report hx t ht metadata obs hm ho hinj
    have hn : ∀ t ∈ files, ∀ obs', t.observed = .ok obs' →
        Digest.of (toCbor obs'.record) = Digest.of (toCbor obs.record) → toCbor obs'.record = toCbor obs.record := by
      intro t' ht' obs' ho' hd
      exact hinj ⟨t', ht', obs', ho', rfl⟩ ⟨t, ht, obs, ho, rfl⟩ hd
    have ⟨hm, hi⟩ := scan_intact hn ht hm ho hx
    have hl := (StateDir.loadRecord_iff hi).trans hm.repairable_iff
    refine ⟨hl, fun hr kind => ?_⟩
    rw [unchecked, hl.mpr hr]
    simp

end Engine

end

-- A record whose bytes were replaced by others of the same length.
namespace Overwritten

def data : Bytes := [0x6a, 0x6c, 0x72]
def name : Bytes.Fixed 32 := Bytes.fixed 32 0x2e662b6d544c710762f375dc27b3403fd204e91d8ad7e703f81198ae8d62e944

def zeros : File := ⟨[0, 0, 0], by decide⟩
def zerosId : Bytes.Fixed 32 := Bytes.fixed 32 0x709e80c88487a2411e1ee4dfb9f22a861492d20c4765150c0c794abd70f8147c

abbrev crypto : Crypto where
  sha256 bytes       := if bytes = data then name else if bytes = zeros.data then zerosId else Bytes.fixed 32 0
  publicKey seed     := seed
  isPoint _          := true
  sign _ _           := Bytes.fixed 64 0
  verifyStrict _ _ _ := false

attribute [local instance] crypto

def dir : StateDir where
  root         := "/var/lib/jlr"
  node         := none
  anchors      := .error .notInitialised
  deviceKey    := .error "missing"
  policyKey    := .error "missing"
  policy       := none
  revocations  := none
  grants _     := []
  unreadable _ := []
  objects _ d  := if d = ⟨name⟩ then some zeros else none
  index        := none
  log          := ⟨[], none, 0, 0, 0⟩

def host : Host where
  dir    := dir
  ledger := .new
  locked := false
  oracle := ⟨fun _ => .done, fun _ => 0⟩
  tick   := 0

theorem not_rewritten : ∃ h', Host.putObject .epn data host = (.ok (Digest.of data), h') ∧
    h'.dir.getObject .epn (Digest.of data) = none :=
  ⟨host, rfl, by decide +kernel⟩

end Overwritten
