import JlrModel.Boot.Init
import JlrModel.Boot.Theorems.Run

open Program

-- The programs of a trial do not end early, except to refuse. What they do is added to what was done before.

-- How writing the state can go.
inductive Persists (state : BootState) (t : Trial) : Except String Unit → Trial → Prop
  | remount {t' : Trial} : t'.done = t.done → Persists state t (.error e) t'
  | write {t' : Trial} : t'.done = t.done ++ [.write state r] → Persists state t r t'

variable {t t' : Trial} {state : BootState} {slot : String} {m : ReleaseManifest} {done : List BootAction}

theorem persist_persists (state : BootState) (t : Trial) :
    ∃ r t', persist state t = (.ok r, t') ∧ Persists state t r t' := by
  rw [persist, view_bind]
  cases hw : t.writable
  case true => exact ⟨_, _, rfl, .write rfl⟩
  case false =>
    cases hr : t.io.remount t.tick
    case error e =>
      have h : Trial.operate MediumIo.remount t = (.ok (.error e), { t with tick := t.tick + 1 }) := by
        rw [← hr]
        rfl
      rw [if_neg Bool.false_ne_true, bind_ok h]
      exact ⟨_, _, rfl, .remount rfl⟩
    case ok u =>
      have h : Trial.operate MediumIo.remount t = (.ok (.ok ()), { t with tick := t.tick + 1 }) := by
        rw [← hr]
        rfl
      rw [if_neg Bool.false_ne_true, bind_ok h]
      exact ⟨_, _, rfl, .write rfl⟩

-- Two reads of the image of a slot have given the same wrong answer.
def Mismatched (slot : String) (done : List BootAction) : Prop :=
  ∃ e e', sameMismatch e e' ∧
    [.read slot (.error (.provenBad e)), .read slot (.error (.provenBad e'))].Sublist done

theorem Mismatched.append (h : Mismatched slot done) (more : List BootAction) : Mismatched slot (done ++ more) := by
  have ⟨e, e', he, hs⟩ := h
  exact ⟨e, e', he, hs.trans (List.sublist_append_left _ _)⟩

-- The number of reads of an image.
def reads (done : List BootAction) : Nat :=
  done.countP fun a => match a with | .read _ _ => true | .write _ _ => false

theorem reads_append {more : List BootAction} : reads (done ++ more) = reads done + reads more :=
  List.countP_append

theorem reads_map {slot : String} {rs : List (Except LoadFailure File)} : reads (rs.map (.read slot)) = rs.length := by
  induction rs
  case nil => rfl
  case cons r rs ih =>
    unfold reads at ih ⊢
    simp [ih]

-- A slot that may boot by the first state is retired only after two reads of its image have given the same mismatch.
def Justified (first : BootState) (done : List BootAction) : Prop :=
  ∀ state r, .write state r ∈ done → ∀ name s s', first.slot name = some s → 0 < s.priority →
    state.slot name = some s' → s'.priority = 0 → Mismatched name done

-- The state in memory differs from the first one only by the slots that were retired.
structure Follows (first state : BootState) (done : List BootAction) : Prop where
  floor     : state.floor = first.floor
  names     : state.names = first.names
  slots     : ∀ name, state.slot name = first.slot name ∨
    Mismatched name done ∧ state.slot name = (first.slot name).map .bad
  justified : Justified first done

namespace Follows

variable {first : BootState}

theorem start (first : BootState) : Follows first first [] where
  floor                 := rfl
  names                 := rfl
  slots _               := .inl rfl
  justified _ _ h _ _ _ := absurd h List.not_mem_nil

theorem append (h : Follows first state done) {more : List BootAction} (hm : ∀ state r, .write state r ∉ more) :
    Follows first state (done ++ more) where
  floor                       := h.floor
  names                       := h.names
  slots name                  := (h.slots name).imp_right fun ⟨hd, hs⟩ => ⟨hd.append more, hs⟩
  justified state' r hw n s s' := by
    intro hs hp hs' hz
    have hw := (List.mem_append.mp hw).resolve_right (hm state' r)
    exact (h.justified state' r hw n s s' hs hp hs' hz).append more

theorem markBad (h : Follows first state done) (hb : Mismatched slot done) : Follows first (state.markBad slot) done where
  floor     := h.floor
  names     := BootState.names_markBad.trans h.names
  slots name := by
    by_cases hn : name = slot
    · subst hn
      refine .inr ⟨hb, ?_⟩
      rw [BootState.slot_markBad]
      cases h.slots name
      case inl hs => rw [hs]
      case inr hs =>
        rw [hs.right, Option.map_map]
        rfl
    · rw [BootState.slot_markBad_other hn]
      exact h.slots name
  justified := h.justified

-- A state may be written if its slots have the priorities of the one in memory.
theorem write (h : Follows first state done) {next : BootState} {r : Except IoError Unit}
    (hn : ∀ name, (next.slot name).map (·.priority) = (state.slot name).map (·.priority)) :
    Follows first state (done ++ [.write next r]) where
  floor      := h.floor
  names      := h.names
  slots name := (h.slots name).imp_right fun ⟨hd, hs⟩ => ⟨hd.append _, hs⟩
  justified state' r' hw name s s' := by
    intro hs hp hs' hz
    cases List.mem_append.mp hw
    case inl hw => exact (h.justified state' r' hw name s s' hs hp hs' hz).append _
    case inr hw =>
      cases List.mem_singleton.mp hw
      have hn := hn name
      cases h.slots name
      case inr hb => exact hb.left.append _
      case inl he =>
        rw [he, hs, hs'] at hn
        have hn : s'.priority = s.priority := Option.some.inj hn
        rw [← hn, hz] at hp
        exact absurd hp (by decide)

end Follows

section

variable {first : BootState} {verified : List (String × ReleaseManifest)} {c : Choice} {s : SlotState}

theorem Chosen.priority_next (h : Chosen state verified c s) (name : String) :
    (c.next.slot name).map (·.priority) = (state.slot name).map (·.priority) := by
  rw [h.next]
  split
  · rfl
  · by_cases hn : name = s.name
    · subst hn
      rw [BootState.slot, BootState.find_modify_self .spent, Option.map_map]
      rfl
    · rw [BootState.slot, BootState.find_modify_other .spent hn]
      rfl

-- A slot that was chosen is as it was at first.
theorem Chosen.as_first (h : Chosen state verified c s) (hf : Follows first state done) (hn : first.names.Nodup) :
    s ∈ first.slots ∧ state.slot c.slot = some s := by
  have hs : state.slot c.slot = some s := h.name ▸ BootState.slot_of_mem (hf.names ▸ hn) h.mem
  refine ⟨?_, hs⟩
  cases hf.slots c.slot
  case inl he =>
    rw [hs] at he
    exact List.mem_of_find?_eq_some he.symm
  case inr hb =>
    have he := hs.symm.trans hb.right
    cases hq : first.slot c.slot <;> rw [hq] at he <;> cases he
    exact absurd h.priority (UInt16.lt_irrefl 0)

-- Only a slot that is proven spends nothing.
theorem Chosen.spends (h : Chosen state verified c s) (hn : state.names.Nodup) (hs : state.slot c.slot = some s) :
    s.successful ∧ c.next = state ∨ c.next ≠ state ∧
      ∃ s', c.next.slot c.slot = some s' ∧ s'.tries.toNat + 1 = s.tries.toNat := by
  cases hf : s.successful
  case true => exact .inl ⟨rfl, by rw [h.next, if_pos hf]⟩
  case false =>
    refine .inr ⟨fun he => ?_, s.spent, ?_, h.spent hf⟩
    · have ht := h.tries_next hn hf
      rw [he] at ht
      omega
    · rw [h.next, hf, if_neg Bool.false_ne_true, BootState.slot, h.name, BootState.find_modify_self .spent]
      exact congrArg (Option.map _) hs

-- A slot is chosen only with a manifest, so the search for it does not fail.
theorem Chosen.find_ne_none {verified : List (String × ReleaseManifest × Bytes)}
    (h : Chosen state (verified.map fun v => (v.1, v.2.1)) c s) : verified.find? (·.1 = c.slot) ≠ none := by
  have ⟨v, hv, _⟩ := bootable_iff.mp h.bootable
  intro hn
  rw [List.find?_map, h.name] at hv
  have hn : verified.find? ((fun v : String × ReleaseManifest => decide (v.1 = c.slot)) ∘
      fun v : String × ReleaseManifest × Bytes => (v.1, v.2.1)) = none := hn
  rw [hn] at hv
  cases hv

end

theorem mem_without {name : String} {vs : List (String × ReleaseManifest × Bytes)} {v : String × ReleaseManifest × Bytes}
    (h : v ∈ without name vs) : v ∈ vs :=
  (List.mem_filter.mp h).left

section

variable [Crypto]

-- What a copy of an image in memory is checked for.
structure Matches (m : ReleaseManifest) (image : File) : Prop where
  size   : image.data.length = m.imageSize.toNat
  digest : Digest.of image.data = m.imageDigest

theorem ReleaseManifest.judge_eq_ok_iff {data : Bytes} {n : UInt64} : m.judge data = .ok n ↔
    .ofNat data.length = m.imageSize ∧ .of data = m.imageDigest ∧ .ofNat data.length = n := by
  simp only [judge, Except.bind_eq_ok, Except.ensure_eq_ok, Except.pure_eq_ok, exists_const]

theorem verifyImage_ok {source : Reader IoError} {write : Nat → Bytes → Except IoError Unit} {image : File}
    (h : verifyImage m source write = .ok image) : Matches m image := by
  have ⟨sink, _, h⟩ := Except.bind_eq_ok.mp h
  have ⟨n, hj, h⟩ := Except.bind_eq_ok.mp h
  cases h
  have ⟨hs, hd, _⟩ := ReleaseManifest.judge_eq_ok_iff.mp hj
  have hs := congrArg UInt64.toNat hs
  have hl := image.size_lt
  rw [UInt64.toNat_ofNat_of_lt' (hl.trans (by decide))] at hs
  exact ⟨hs, hd⟩

theorem ImageIo.result_ok {io : ImageIo} {path : String} {image : File} (h : io.result path m = .ok image) :
    Matches m image := by
  have ⟨_, _, h⟩ := Except.bind_eq_ok.mp h
  have ⟨_, _, h⟩ := Except.bind_eq_ok.mp h
  exact verifyImage_ok (Except.mapError_eq_ok.mp h)

theorem readImage_apply (slot : String) (m : ReleaseManifest) (reading : Reading) (t : Trial) :
    ∃ r t', readImage slot m reading t = (.ok r, t') ∧ t'.done = t.done ++ [.read slot r] ∧
      ∀ image, r = .ok image → Matches m image :=
  ⟨_, _, rfl, rfl, fun _ => ImageIo.result_ok⟩

-- How loading an image can go.
structure Loads (slot : String) (m : ReleaseManifest) (t : Trial) (r : Except LoadFailure File) (t' : Trial) :
    Prop where
  done : ∃ reads : List (Except LoadFailure File), t'.done = t.done ++ reads.map (.read slot) ∧ reads.length ≤ 2
  ok   : ∀ image, r = .ok image → Matches m image
  bad  : ∀ e, r = .error (.provenBad e) → Mismatched slot t'.done

theorem loadImage_loads (slot : String) (m : ReleaseManifest) (t : Trial) :
    ∃ r t', loadImage slot m t = (.ok r, t') ∧ Loads slot m t r t' := by
  have ⟨r, t₁, hr, hd, hm⟩ := readImage_apply slot m .first t
  rw [loadImage, confirm, bind_ok hr]
  -- A read that is not followed by another one.
  have once (hb : ∀ e, r ≠ .error (.provenBad e)) : Loads slot m t r t₁ :=
    ⟨⟨[r], hd, by simp⟩, hm, fun e he => absurd he (hb e)⟩
  match r with
  | .ok image                 => exact ⟨_, _, rfl, once nofun⟩
  | .error (.transient why)   => exact ⟨_, _, rfl, once nofun⟩
  | .error (.provenBad first) =>
    have ⟨r', t₂, hr', hd', hm'⟩ := readImage_apply slot m .confirming t₁
    have hdone : t₂.done = t.done ++ [.error (.provenBad first), r'].map (.read slot) := by
      rw [hd', hd, List.append_assoc]
      rfl
    have hl : [Except.error (.provenBad first), r'].length ≤ 2 := by simp
    dsimp only
    rw [bind_ok hr']
    match r' with
    | .ok image                  => exact ⟨_, _, rfl, ⟨_, hdone, hl⟩, hm', nofun⟩
    | .error (.transient why)    => exact ⟨_, _, rfl, ⟨_, hdone, hl⟩, hm', nofun⟩
    | .error (.provenBad second) =>
      dsimp only
      split
      case isTrue hs =>
        refine ⟨_, _, rfl, ⟨_, hdone, hl⟩, nofun, fun e he => ?_⟩
        cases he
        refine ⟨first, second, hs, ?_⟩
        rw [hdone]
        exact List.sublist_append_right _ _
      case isFalse => exact ⟨_, _, rfl, ⟨_, hdone, hl⟩, nofun, nofun⟩

-- What is promised of a boot that goes on.
structure Boots (first : BootState) (offered : List (String × ReleaseManifest × Bytes)) (b : Booted)
    (done : List BootAction) : Prop where
  manifest : (b.slot, b.manifest, b.manifestBytes) ∈ offered
  image    : Matches b.manifest b.image
  spent    : ∃ s ∈ first.slots, s.name = b.slot ∧ (s.successful ∨ ∃ state s', .write state (.ok ()) ∈ done ∧
    state.slot b.slot = some s' ∧ s'.tries.toNat + 1 = s.tries.toNat)

-- What a trial comes to.
structure Ends (first : BootState) (offered : List (String × ReleaseManifest × Bytes)) (bound : Nat)
    (r : Except String (Option Booted) × Trial) : Prop where
  justified : Justified first r.2.done
  reads     : reads r.2.done ≤ bound
  refuses   : ∀ e, r.1 = .error e → ∃ why, e = "cannot seal the RAM image: " ++ why
  boots     : ∀ b, r.1 = .ok (some b) → Boots first offered b r.2.done

section

variable {first : BootState} {offered : List (String × ReleaseManifest × Bytes)} {dev fstype : String} {n : Nat}
  {c : Choice} {s : SlotState}

-- One slot is tried, and the others only with the reads that are left.
theorem trySlot_ends {verified : List (String × ReleaseManifest)} {bytes : Bytes}
    {others : BootState → TrialM (Option Booted)} (hn : first.names.Nodup) (hf : Follows first state t.done)
    (hc : Chosen state verified c s) (hm : (c.slot, m, bytes) ∈ offered)
    (ho : ∀ state' t', Follows first state' t'.done → reads t'.done ≤ reads t.done + 2 →
      Ends first offered (reads t.done + 2 + n) (others state' t')) :
    Ends first offered (reads t.done + 2 + n) (trySlot dev fstype state c m bytes others t) := by
  have ⟨hs, hslot⟩ := hc.as_first hf hn
  have ⟨r, t₁, hload, hl⟩ := loadImage_loads c.slot m t
  have ⟨rs, hdone, hrs⟩ := hl.done
  have hreads : reads t₁.done ≤ reads t.done + 2 := by
    rw [hdone, reads_append, reads_map]
    omega
  have hf₁ : Follows first state t₁.done := by
    rw [hdone]
    exact hf.append (by simp)
  rw [trySlot, bind_ok hload]
  match r with
  | .error (.transient why) => exact ho state t₁ hf₁ hreads
  | .error (.provenBad e)   =>
    have hf₂ : Follows first (state.recordImageFailure c.slot e).2 t₁.done := by
      unfold BootState.recordImageFailure
      split
      · exact hf₁.markBad (hl.bad e rfl)
      · exact hf₁
    have ⟨r, t₂, hx, hp⟩ := persist_persists (state.recordImageFailure c.slot e).2 t₁
    dsimp only
    rw [bind_ok hx]
    cases hp with
    | remount hd => exact ho _ t₂ (hd ▸ hf₂) (hd ▸ hreads)
    | write hd   =>
      refine ho _ t₂ (hd ▸ hf₂.write fun _ => rfl) ?_
      rw [hd, reads_append]
      exact hreads
  | .ok image               =>
    -- Whether the image can be sealed or not, the slot has been accounted for.
    have boots {t'} (hf' : Follows first state t'.done) (hr : reads t'.done ≤ reads t.done + 2)
        (hsp : s.successful ∨ ∃ state s', .write state (.ok ()) ∈ t'.done ∧ state.slot c.slot = some s' ∧
          s'.tries.toNat + 1 = s.tries.toNat) :
        Ends first offered (reads t.done + 2 + n) ((do
          let «sealed» ← view (·.io.addSeals)
          ofExcept («sealed».mapError ("cannot seal the RAM image: " ++ ·))
          return some ⟨c.slot, m, bytes, image, dev, fstype⟩ : TrialM (Option Booted)) t') := by
      rw [view_bind]
      cases t'.io.addSeals
      case error why => exact ⟨hf'.justified, hr.trans (Nat.le_add_right _ _), fun e he => ⟨why, by cases he; rfl⟩, nofun⟩
      case ok =>
        refine ⟨hf'.justified, hr.trans (Nat.le_add_right _ _), nofun, fun b hb => ?_⟩
        cases hb
        exact ⟨hm, hl.ok image rfl, s, hs, hc.name, hsp⟩
    dsimp only
    cases hc.spends (hf.names ▸ hn) hslot
    case inl he =>
      rw [if_neg (not_not.mpr he.right)]
      exact boots hf₁ hreads (.inl he.left)
    case inr he =>
      have ⟨s', hs', ht⟩ := he.right
      have ⟨r, t₂, hx, hp⟩ := persist_persists c.next t₁
      rw [if_pos he.left, bind_ok hx]
      cases hp with
      | remount hd => exact ho _ t₂ (hd ▸ hf₁) (hd ▸ hreads)
      | write hd   =>
        have hf₂ : Follows first state t₂.done := hd ▸ hf₁.write hc.priority_next
        have hr₂ : reads t₂.done ≤ reads t.done + 2 := by
          rw [hd, reads_append]
          exact hreads
        match r with
        | .error e => exact ho _ t₂ hf₂ hr₂
        | .ok ()   =>
          refine boots hf₂ hr₂ (.inr ⟨c.next, s', ?_, hs', ht⟩)
          rw [hd]
          exact List.mem_append_right _ List.mem_cons_self

theorem trySlots_of_chosen {verified : List (String × ReleaseManifest × Bytes)} {v : String × ReleaseManifest × Bytes}
    (hc : choose state (verified.map fun v => (v.1, v.2.1)) = .ok c) (hv : verified.find? (·.1 = c.slot) = some v) :
    trySlots dev fstype state verified = trySlot dev fstype state c v.2.1 v.2.2 fun state =>
      trySlots dev fstype state (without c.slot verified) := by
  rw [trySlots, hc]
  dsimp only
  split
  case h_1 hn => exact absurd (hn.symm.trans hv).symm (Option.some_ne_none v)
  case h_2 hv' =>
    cases hv'.symm.trans hv
    rfl

-- Every pass leaves one slot less to try.
theorem trySlots_ends {verified : List (String × ReleaseManifest × Bytes)} (hn : first.names.Nodup)
    (hf : Follows first state t.done) (hv : verified ⊆ offered) :
    Ends first offered (reads t.done + 2 * verified.length) (trySlots dev fstype state verified t) := by
  induction hl : verified.length using Nat.strong_induction_on generalizing verified state t
  case _ n ih =>
    subst hl
    cases hc : choose state (verified.map fun v => (v.1, v.2.1))
    case error e =>
      rw [trySlots, hc]
      exact ⟨hf.justified, Nat.le_add_right _ _, nofun, nofun⟩
    case ok c =>
      have ⟨s, hch⟩ := choose_ok hc
      cases hfind : verified.find? (·.1 = c.slot)
      case none => exact absurd hfind hch.find_ne_none
      case some v =>
        have hlt := length_without hfind
        have he : reads t.done + 2 * verified.length = reads t.done + 2 + 2 * (verified.length - 1) := by omega
        rw [trySlots_of_chosen hc hfind, he]
        have hv₁ : v.1 = c.slot := by simpa using List.find?_some hfind
        have hm : (c.slot, v.2) ∈ offered := hv₁ ▸ hv (List.mem_of_find?_eq_some hfind)
        refine trySlot_ends hn hf hch hm fun state' t' hf' hr => ?_
        have hi := ih _ hlt hf' (fun v h => hv (mem_without h)) rfl
        exact { hi with reads := hi.reads.trans (by omega) }

end

theorem mem_verifyManifests {io : MediumIo} {anchors : TrustAnchors} {floor : UInt64} {slots : List SlotState}
    {v : String × ReleaseManifest × Bytes} (h : v ∈ verifyManifests io anchors floor slots) :
    (∃ i s, slots[i]? = some s ∧ s.name = v.1 ∧ io.manifest i = .ok v.2.2) ∧
      verifyManifest v.2.2 anchors floor = .ok v.2.1 := by
  have ⟨⟨s, i⟩, hs, h⟩ := List.mem_filterMap.mp h
  have hs := List.mem_zipIdx_iff_getElem?.mp hs
  dsimp only at h
  split at h
  case h_1 => cases h
  case h_2 hb =>
    split at h
    case h_1 => cases h
    case h_2 hm =>
      cases h
      exact ⟨⟨i, s, hs, rfl, hb⟩, hm⟩

theorem length_verifyManifests {io : MediumIo} {anchors : TrustAnchors} {floor : UInt64} {slots : List SlotState} :
    (verifyManifests io anchors floor slots).length ≤ slots.length := by
  unfold verifyManifests
  exact (List.length_filterMap_le _ _).trans_eq List.length_zipIdx

-- The state a medium is tried with.
def Medium.raised (medium : Medium) (floor : UInt64) : BootState :=
  { medium.state with floor := max medium.state.floor floor }

theorem tryMedium_ends (medium : Medium) (floor : UInt64) (anchors : TrustAnchors) (io : MediumIo)
    (hn : medium.state.names.Nodup) :
    Ends (medium.raised floor) (verifyManifests io anchors (medium.raised floor).floor medium.state.slots)
      (2 * medium.state.slots.length) (tryMedium medium floor anchors (.new io)) := by
  have hn : (medium.raised floor).names.Nodup := hn
  have hstart := Follows.start (medium.raised floor)
  cases hm : io.mount
  case none =>
    rw [tryMedium, view_bind]
    dsimp only [Trial.new]
    rw [hm]
    exact ⟨hstart.justified, Nat.zero_le _, nofun, nofun⟩
  case some fstype =>
    let verified := verifyManifests io anchors (medium.raised floor).floor medium.state.slots
    have hr : tryMedium medium floor anchors (.new io) =
        trySlots medium.dev fstype (medium.raised floor) verified (.new io) := by
      rw [tryMedium, view_bind]
      dsimp only [Trial.new]
      rw [hm]
      rfl
    have he : Ends (medium.raised floor) verified (reads [] + 2 * verified.length)
        (trySlots medium.dev fstype (medium.raised floor) verified (.new io)) :=
      trySlots_ends (t := .new io) hn hstart (List.Subset.refl _)
    have hl : verified.length ≤ medium.state.slots.length := length_verifyManifests
    have hz : reads [] = 0 := rfl
    rw [hr]
    exact { he with reads := he.reads.trans (by omega) }

theorem verifyManifest_signed {bytes : Bytes} {anchors : TrustAnchors} {floor : UInt64}
    (h : verifyManifest bytes anchors floor = .ok m) :
    ∃ v, Envelope.verify bytes RecordType.RELEASE "*" anchors [.release] = .ok v ∧
      Cbor.fromCbor ReleaseManifest v.payload = .ok m := by
  have ⟨v, hv, h⟩ := Except.bind_eq_ok.mp h
  have ⟨m', hm, h⟩ := Except.bind_eq_ok.mp h
  have ⟨_, _, h⟩ := Except.bind_eq_ok.mp h
  have ⟨_, _, h⟩ := Except.bind_eq_ok.mp h
  have ⟨_, _, h⟩ := Except.bind_eq_ok.mp h
  cases h
  exact ⟨v, Except.mapError_eq_ok.mp hv, Except.mapError_eq_ok.mp hm⟩

-- What is booted is signed for a release and no older than any floor, and what was checked is what is kept in memory.
-- Either its slot is proven or one try of it has been spent on the medium. A slot is retired on the medium only by two
-- reads that agree.
theorem booted_accounted (medium : Medium) (floor : UInt64) (anchors : TrustAnchors) (io : MediumIo)
    (hn : medium.state.names.Nodup) :
    ∃ r t, tryMedium medium floor anchors (.new io) = (r, t) ∧
      reads t.done ≤ 2 * medium.state.slots.length ∧
      (∀ e, r = .error e → ∃ why, e = "cannot seal the RAM image: " ++ why) ∧
      (∀ b, r = .ok (some b) →
        (∃ i s, medium.state.slots[i]? = some s ∧ s.name = b.slot ∧ io.manifest i = .ok b.manifestBytes) ∧
        (∃ v, Envelope.verify b.manifestBytes RecordType.RELEASE "*" anchors [.release] = .ok v ∧
          Cbor.fromCbor ReleaseManifest v.payload = .ok b.manifest) ∧
        medium.state.floor ≤ b.manifest.epoch ∧ floor ≤ b.manifest.epoch ∧
        b.image.data.length = b.manifest.imageSize.toNat ∧ Digest.of b.image.data = b.manifest.imageDigest ∧
        ∃ s ∈ medium.state.slots, s.name = b.slot ∧ (s.successful ∨ ∃ state s', .write state (.ok ()) ∈ t.done ∧
          state.slot b.slot = some s' ∧ s'.tries.toNat + 1 = s.tries.toNat)) ∧
      ∀ state written, .write state written ∈ t.done → ∀ name s s', medium.state.slot name = some s → 0 < s.priority →
        state.slot name = some s' → s'.priority = 0 → Mismatched name t.done := by
  have h := tryMedium_ends medium floor anchors io hn
  refine ⟨_, _, rfl, h.reads, h.refuses, fun b hb => ?_, h.justified⟩
  have hb := h.boots b hb
  have ⟨hr, hm⟩ := mem_verifyManifests hb.manifest
  have he := (verifyManifest_epoch hm).left
  exact ⟨hr, verifyManifest_signed hm, UInt64.le_trans (UInt64.le_max_left _ _) he, UInt64.le_trans (UInt64.le_max_right _ _) he,
    hb.image.size, hb.image.digest, hb.spent⟩

end

namespace Released

attribute [local instance] crypto

-- The medium the release was installed on, with no errors.
def medium : Medium where
  dev   := "/dev/sda1"
  state := BootState.fresh.install "b"

def source : Reader IoError where
  read _ offset := .ok (image.drop offset)
  fits i offset chunk ho h := by
    cases h
    rw [List.length_drop]
    have : image.length = 4 := rfl
    omega

def io : MediumIo where
  mount      := some "ext4"
  manifest i := if i = 1 then .ok bytes else .error "No such file or directory (os error 2)"
  image _    := { memory := .ok (), «open» := .ok source, write := fun _ _ => .ok () }
  remount _  := .ok ()
  write _    := .ok ()
  addSeals   := .ok ()

def booted : Booted where
  slot          := "b"
  manifest      := manifest
  manifestBytes := bytes
  image         := ⟨image, by decide⟩
  dev           := "/dev/sda1"
  fstype        := "ext4"

theorem verifyImage_source : verifyImage manifest source (fun _ _ => .ok ()) = .ok booted.image := by
  have h : (source.mapError BootError.io).copy 4 (.imageSize 4) (fun _ _ => .ok ()) 0 .empty = .ok booted.image :=
    Reader.copy_still (f := booted.image) (by decide)
  have hs : UInt64.ofNat booted.image.data.length = manifest.imageSize := by decide
  have hd : Digest.of booted.image.data = manifest.imageDigest := by decide +kernel
  exact Except.bind_eq_ok.mpr ⟨_, h, Except.bind_eq_ok.mpr ⟨_, ReleaseManifest.judge_eq_ok_iff.mpr ⟨hs, hd, rfl⟩, rfl⟩⟩

theorem verifyManifests_io : verifyManifests io anchors 0 medium.state.slots = [("b", manifest, bytes)] := by
  decide +kernel

theorem loadImage_io : loadImage "b" manifest (.new io) =
    (.ok (.ok booted.image), { Trial.new io with tick := 1, done := [.read "b" (.ok booted.image)] }) := by
  let path := MEDIA ++ "/jlr/slot-" ++ "b" ++ "/base.sqfs"
  have h : (io.image 0).result path manifest = .ok booted.image :=
    congrArg (Except.mapError _) verifyImage_source
  have hr : readImage "b" manifest .first (.new io) = (.ok ((io.image 0).result path manifest),
    { Trial.new io with tick := 1, done := [.read "b" ((io.image 0).result path manifest)] }) := rfl
  rw [h] at hr
  rw [loadImage, confirm, bind_ok hr]
  rfl

theorem choose_medium : choose (medium.raised 0) [("b", manifest)] = .ok ⟨"b", trial.state⟩ := by
  decide +kernel

theorem tryMedium_medium : ∃ t, tryMedium medium 0 anchors (.new io) = (.ok (some booted), t) := by
  have hv : [("b", manifest, bytes)].find? (·.1 = "b") = some ("b", manifest, bytes) := by decide +kernel
  have hs : tryMedium medium 0 anchors (.new io) = trySlots "/dev/sda1" "ext4" (medium.raised 0)
      (verifyManifests io anchors 0 medium.state.slots) (.new io) := rfl
  have hne : trial.state ≠ medium.raised 0 := by decide +kernel
  rw [hs, verifyManifests_io, trySlots_of_chosen choose_medium hv, trySlot, bind_ok loadImage_io]
  dsimp only
  rw [if_pos hne]
  exact ⟨_, rfl⟩

theorem booted_accounted_medium : medium.state.names.Nodup ∧ ∃ t : Trial, ∃ state s',
    tryMedium medium 0 anchors (.new io) = (.ok (some booted), t) ∧ BootAction.write state (.ok ()) ∈ t.done ∧
      state.slot "b" = some s' ∧ s'.tries.toNat + 1 = DEFAULT_TRIES.toNat := by
  have hn : medium.state.names.Nodup := by decide
  have ⟨t, ht⟩ := tryMedium_medium
  have ⟨r, t', hr, _, _, hb, _⟩ := booted_accounted medium 0 anchors io hn
  cases ht.symm.trans hr
  have ⟨_, _, _, _, _, _, s, hs, hname, hspent⟩ := hb booted rfl
  have only : ∀ s ∈ medium.state.slots, s.name = "b" → s = SlotState.installed "b" := by decide
  cases only s hs hname
  have ⟨state, s', hw, hslot, htries⟩ := hspent.resolve_left (by decide)
  exact ⟨hn, t, state, s', ht, hw, hslot, htries⟩

end Released
