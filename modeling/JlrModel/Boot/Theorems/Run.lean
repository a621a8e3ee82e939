import JlrModel.Boot.Run
import JlrModel.Boot.Theorems.Choose
import JlrModel.Crypto.Theorems.Envelope
import JlrModel.Lib.Saturating

section

variable [Crypto] {anchors : TrustAnchors} {floor : UInt64} {bytes : Bytes} {m : ReleaseManifest}

-- What a manifest that was accepted has promised.
theorem verifyManifest_epoch (h : verifyManifest bytes anchors floor = .ok m) :
    floor ≤ m.epoch ∧ m.minEpoch ≤ m.epoch := by
  have ⟨_, _, h⟩ := Except.bind_eq_ok.mp h
  have ⟨m', _, h⟩ := Except.bind_eq_ok.mp h
  have ⟨_, _, h⟩ := Except.bind_eq_ok.mp h
  have ⟨_, hf, h⟩ := Except.bind_eq_ok.mp h
  have ⟨_, hm, h⟩ := Except.bind_eq_ok.mp h
  cases h
  exact ⟨Except.ensure_eq_ok.mp hf, Except.ensure_eq_ok.mp hm⟩

namespace Boot

variable {s t u : System} {e : Event} {es : List Event} {name : String}

-- What every boot relies on: slots are found by their names, and the slot that runs may still boot.
structure Safe (s : System) : Prop where
  names   : s.state.names.Nodup
  running : ∀ name m, s.running = some (name, m) → s.state.floor ≤ m.epoch ∧ m.minEpoch ≤ m.epoch

omit [Crypto] in
theorem Safe.fresh : Safe .fresh where
  names   := by decide
  running := nofun

theorem Step.safe (h : Step anchors s e t) (hs : Safe s) : Safe t := by
  cases h
  case install => exact ⟨BootState.nodup_install hs.names, hs.running⟩
  case boot hv hc hm =>
    have ⟨_, hc⟩ := choose_ok hc
    refine ⟨hc.names_next ▸ hs.names, ?_⟩
    intro _ _ hr
    cases hr
    have ⟨bytes, hb⟩ := hv _ (List.mem_of_find?_eq_some hm)
    rw [hc.floor_next]
    exact verifyManifest_epoch hb
  case refuse => exact ⟨hs.names, nofun⟩
  case markBad b r name =>
    have hn : (b.markBad name).names.Nodup := BootState.names_markBad.symm ▸ hs.names
    exact ⟨hn, hs.running⟩
  case markSuccessful b name m =>
    have ⟨hf, hm⟩ := hs.running name m rfl
    have hn : (b.markSuccessful name m).names.Nodup := BootState.names_markSuccessful.symm ▸ hs.names
    refine ⟨hn, ?_⟩
    intro _ _ hr
    cases hr
    exact ⟨UInt64.max_le hf hm, hm⟩
  case crash => exact ⟨hs.names, nofun⟩

theorem Step.floor_le (h : Step anchors s e t) : s.state.floor ≤ t.state.floor := by
  cases h
  case boot hc _ =>
    have ⟨_, hc⟩ := choose_ok hc
    exact UInt64.le_of_eq hc.floor_next.symm
  case markSuccessful => exact UInt64.le_max_left _ _
  all_goals exact UInt64.le_refl _

-- While a slot is tried, only boots of it count.
theorem Step.trying (h : Step anchors s e t) (hs : Safe s) (hi : e ≠ .install name) (hm : e ≠ .markSuccessful name)
    (ht : s.state.Trying name n) :
    ∃ k, t.state.Trying name k ∧ [e].count (.boot name) + k ≤ n := by
  cases h
  case install name' =>
    exact ⟨n, ht.install fun hn => hi (hn ▸ rfl), by simp⟩
  case boot c _ _ hc _ =>
    have ⟨slot, hc⟩ := choose_ok hc
    by_cases hn : name = c.slot
    · subst hn
      have ⟨k, hk, ht⟩ := hc.trying hs.names ht
      exact ⟨k, ht, by simp; omega⟩
    · exact ⟨n, hc.trying_other ht hn, by simp [Ne.symm hn]⟩
  case refuse => exact ⟨n, ht, by simp⟩
  case markBad => exact ⟨n, ht.markBad, by simp⟩
  case markSuccessful => exact ⟨n, ht.markSuccessful fun hn => hm (hn ▸ rfl), by simp⟩
  case crash => exact ⟨n, ht, by simp⟩

namespace Runs

theorem safe (h : Runs anchors s es t) (hs : Safe s) : Safe t := by
  induction h
  case refl => exact hs
  case step h _ ih => exact ih (h.safe hs)

theorem floor_le (h : Runs anchors s es t) : s.state.floor ≤ t.state.floor := by
  induction h
  case refl => exact UInt64.le_refl _
  case step h _ ih => exact UInt64.le_trans h.floor_le ih

-- A slot that is not proven boots at most as often as it has tries left.
theorem count_boot_le (h : Runs anchors s es t) (hs : Safe s) (hi : .install name ∉ es)
    (hm : .markSuccessful name ∉ es) (ht : s.state.Trying name n) : es.count (.boot name) ≤ n := by
  induction h generalizing n
  case refl => exact Nat.zero_le _
  case step s e t es _ h _ ih =>
    have hi := not_or.mp (List.mem_cons.not.mp hi)
    have hm := not_or.mp (List.mem_cons.not.mp hm)
    have ⟨k, hk, hle⟩ := h.trying hs (Ne.symm hi.left) (Ne.symm hm.left) ht
    have ih := ih (h.safe hs) hi.right hm.right hk
    rw [← List.singleton_append, List.count_append]
    omega

end Runs

-- In every run from a fresh medium, with boots, installs, retired slots and crashes in any order: the names of the
-- slots are unique and the floor only rises. A new release boots at most as often as it has tries before it is
-- proven or replaced, and marking a slot successful does not lock it out. A proven slot whose manifest is verified
-- always boots, once the others have no tries left.
theorem slots_fall_back (anchors : TrustAnchors) (es es' : List Event) (s t : System)
    (h : Runs anchors .fresh es s) (h' : Runs anchors s es' t) :
    t.state.names.Nodup ∧ s.state.floor ≤ t.state.floor ∧
    (∀ name rest, es' = .install name :: rest → .install name ∉ rest → .markSuccessful name ∉ rest →
      rest.count (.boot name) ≤ DEFAULT_TRIES.toNat) ∧
    (∀ name m u, t.running = some (name, m) → Step anchors t (.markSuccessful name) u → u.state.floor ≤ m.epoch) ∧
    (∀ verified, Verified anchors t.state.floor verified →
      (∃ slot ∈ t.state.slots, slot.successful ∧ 0 < slot.priority ∧ slot.name ∈ verified.map Prod.fst) →
      ∃ c slot, choose t.state verified = .ok c ∧ slot ∈ t.state.slots ∧ slot.name = c.slot ∧
        (slot.successful ∨ c.next.tries + 1 = t.state.tries) ∧
        ((∀ slot ∈ t.state.slots, ¬ slot.successful → slot.name ∈ verified.map Prod.fst → slot.tries = 0) →
          slot.successful)) := by
  have hs := h.safe .fresh
  have ht := h'.safe hs
  refine ⟨ht.names, h'.floor_le, ?_, ?_, ?_⟩
  · intro name rest he hi hm
    subst he
    cases h'
    case step h h' =>
      have hs := h.safe hs
      cases h
      exact h'.count_boot_le hs hi hm ⟨_, BootState.slot_install, rfl, le_refl _⟩
  · intro name m u hr hu
    have hr' := (hu.safe ht).running name m
    cases hu
    cases hr
    exact (hr' rfl).left
  · intro verified hv ⟨slot, hslot, hf, hp, hn⟩
    have ⟨v, hv', hvn⟩ := List.mem_map.mp hn
    have hbootable : bootable t.state.floor verified slot := by
      cases hfind : verified.find? (·.1 = slot.name)
      case none => exact absurd (decide_eq_true hvn) (List.find?_eq_none.mp hfind v hv')
      case some v =>
        have ⟨bytes, hb⟩ := hv v (List.mem_of_find?_eq_some hfind)
        exact bootable_iff.mpr ⟨v, hfind, (verifyManifest_epoch hb).left, .inl hf⟩
    have ⟨c, hc⟩ := choose_of_bootable hslot hp hbootable
    have ⟨chosen, hch⟩ := choose_ok hc
    refine ⟨c, chosen, hc, hch.mem, hch.name, ?_, fun hused => ?_⟩
    · cases hsuc : chosen.successful
      case true => exact .inl rfl
      case false => exact .inr (hch.tries_next ht.names hsuc)
    · by_contra hsuc
      have hsuc : chosen.successful = false := Bool.eq_false_iff.mpr hsuc
      have ⟨w, hw, _, _⟩ := bootable_iff.mp hch.bootable
      have hwn : w.1 = chosen.name := by simpa using List.find?_some hw
      have hmem : chosen.name ∈ verified.map Prod.fst := List.mem_map.mpr ⟨w, List.mem_of_find?_eq_some hw, hwn⟩
      have hzero := hused chosen hch.mem (Bool.eq_false_iff.mp hsuc) hmem
      have hpos := hch.tries_pos hsuc
      rw [hzero] at hpos
      exact absurd hpos (by decide)

end Boot

end

-- A release with real values for everything that is hashed and signed.
namespace Released

open Cbor

def releaseSeed : Bytes.Fixed 32 := Bytes.fixed 32 0x0909090909090909090909090909090909090909090909090909090909090909
def releaseKey  : Bytes.Fixed 32 := Bytes.fixed 32 0xfd1724385aa0c75b64fb78cd602fa1d991fdebf76b13c58ed702eac835e9f618
def releaseId   : Bytes.Fixed 32 := Bytes.fixed 32 0xdbc298251c51321b7266e78d1c151c2b62aff8cb95b293096d3463018544face

def image : Bytes := [0x68, 0x73, 0x71, 0x73]
def imageId : Bytes.Fixed 32 := Bytes.fixed 32 0x53bff6664974960b06bcb260bd4b83494c04c71a62623bcadd7986c4d4adf3a1

def manifest : ReleaseManifest where
  schema       := 1
  name         := "jlr"
  version      := "1"
  epoch        := 1
  imageDigest  := ⟨imageId⟩
  imageSize    := 4
  minEpoch     := 1
  policyDigest := none
  components   := []

def signature : Bytes.Fixed 64 := Bytes.fixed 64
  0x069f32855efcca996c8d2f5334b7d55ec6e5d6c82ce46c3d3c6b11a6201b1f6ba133dc824294215c29ec0f00f8c3ab29718324975bcea14c6b4c5c9885a2860a

abbrev crypto : Crypto where
  sha256 data        := if data = releaseKey.val then releaseId else if data = image then imageId else Bytes.fixed 32 0
  publicKey _        := releaseKey
  isPoint _          := true
  sign _ _           := signature
  verifyStrict k m s := k = releaseKey ∧ s = signature ∧
    m = Envelope.message RecordType.RELEASE "*" ⟨releaseId⟩ (toCbor manifest)

attribute [local instance] crypto

def key : SigningKeypair where
  seed := releaseSeed
  role := .release

def anchors : TrustAnchors :=
  TrustAnchors.new.insert key.pub

-- The file of the manifest.
def bytes : Bytes :=
  Envelope.sign RecordType.RELEASE "*" (toCbor manifest) key

theorem verifyManifest_bytes : verifyManifest bytes anchors 0 = .ok manifest := by
  decide +kernel

-- The release is installed beside the first one, and booted.
def trial : Boot.System where
  state   := {
    floor := 0
    slots := [{ name := "a", priority := 14, tries := 0, successful := true }, { SlotState.installed "b" with tries := 2 }]
  }
  running := some ("b", manifest)

theorem verified : Boot.Verified anchors 0 [("b", manifest)] := by
  intro v hv
  exact ⟨bytes, List.mem_singleton.mp hv ▸ verifyManifest_bytes⟩

theorem choose_b : choose (BootState.fresh.install "b") [("b", manifest)] = .ok ⟨"b", trial.state⟩ := by
  decide +kernel

theorem runs_trial : Boot.Runs anchors .fresh [.install "b", .boot "b"] trial := by
  have hv : Boot.Verified anchors (BootState.fresh.install "b").floor [("b", manifest)] := verified
  have hm : [("b", manifest)].find? (·.1 = "b") = some ("b", manifest) := by decide +kernel
  have hb : Boot.Step anchors ⟨BootState.fresh.install "b", none⟩ (.boot "b") trial := .boot hv choose_b hm
  exact .step .install (.step hb .refl)

theorem slots_fall_back_trial :
    trial.state.names.Nodup ∧ [Boot.Event.boot "b"].count (.boot "b") ≤ DEFAULT_TRIES.toNat :=
  have h := Boot.slots_fall_back anchors [] [.install "b", .boot "b"] .fresh trial .refl runs_trial
  ⟨h.left, h.right.right.left "b" [.boot "b"] rfl (by decide) (by decide)⟩

end Released
