import JlrModel.Boot.Theorems.Init
import JlrModel.Boot.Theorems.Run

-- What the verification of an image says about the bytes that were read, however they came in chunks.

open Program Reader

-- The bytes of an image that a manifest promises.
structure ReleaseManifest.Promises [Crypto] (m : ReleaseManifest) (stream : Bytes) : Prop where
  size   : stream.length = m.imageSize.toNat
  digest : Digest.of stream = m.imageDigest

section

variable [Crypto] {m : ReleaseManifest} {stream : Bytes} {source source' : Reader IoError} {o : Nat}
  {write : Nat → Bytes → Except (IoError × Nat) Unit}

theorem ReleaseManifest.judge_eq_ok (hl : stream.length ≤ m.imageSize.toNat) :
    (∃ n, m.judge stream = .ok n) ↔ m.Promises stream := by
  have ht : UInt64.ofNat stream.length = m.imageSize ↔ stream.length = m.imageSize.toNat := by
    rw [← UInt64.toNat_inj, UInt64.toNat_ofNat_of_lt' (hl.trans_lt m.imageSize.toNat_lt)]
  constructor
  case mp =>
    intro ⟨n, h⟩
    have ⟨hs, hd, _⟩ := judge_eq_ok_iff.mp h
    exact ⟨ht.mp hs, hd⟩
  case mpr =>
    intro h
    exact ⟨_, judge_eq_ok_iff.mpr ⟨ht.mpr h.size, h.digest, rfl⟩⟩

theorem verifyImageInto_transfers (m : ReleaseManifest) (write : Nat → Bytes → Except (IoError × Nat) Unit)
    (hs : source.Splits stream) : ∃ res,
    Transfers (source.mapError BootError.io) (fun i bytes => (write i bytes).mapError fun (e, n) => (.io e, n))
      m.imageSize (.imageSize m.imageSize) stream res ∧
    verifyImageInto m source write = (do res.1; m.judge res.2.data, res.2) :=
  ⟨_, transfer_transfers hs.mapError rfl List.nil_prefix (Nat.zero_le _), rfl⟩

-- It says no other than the check of the whole stream, if that is not too long.
theorem verifyImageInto_of_le (hs : source.Splits stream) (hr : source.Reliable)
    (hw : Accepts write) (hl : stream.length ≤ m.imageSize.toNat) :
    (verifyImageInto m source write).1 = m.judge stream := by
  have ⟨res, ht, he⟩ := verifyImageInto_transfers m write hs
  have ⟨h₁, h₂⟩ := ht.of_le hr.mapError (hw.mapError _) hl
  rw [he, h₁, h₂]
  rfl

theorem verifyImageInto_of_lt (hs : source.Splits stream) (hr : source.Reliable)
    (hw : Accepts write) (hl : m.imageSize.toNat < stream.length) :
    ∃ o, source.Crosses m.imageSize.toNat o ∧
      (verifyImageInto m source write).1 = .error (.imageSize m.imageSize (.ofNat o)) := by
  have ⟨res, ht, he⟩ := verifyImageInto_transfers m write hs
  have ⟨o, _, hc, h₁⟩ := ht.of_lt hr.mapError (hw.mapError _) hl
  rw [he, h₁]
  exact ⟨o, crosses_mapError.mp hc, rfl⟩

theorem image_verified_exactly (m : ReleaseManifest) (stream : Bytes) (source : Reader IoError)
    (write : Nat → Bytes → Except (IoError × Nat) Unit) (hs : source.Splits stream) :
    (source.Reliable → Accepts write →
      ((∃ n, (verifyImageInto m source write).1 = .ok n) ↔ m.Promises stream)) ∧
    (∀ n, (verifyImageInto m source write).1 = .ok n → (verifyImageInto m source write).2.data = stream) ∧
    (verifyImageInto m source write).2.data <+: stream ∧
    (verifyImageInto m source write).2.data.length ≤ m.imageSize.toNat := by
  have ⟨res, ht, he⟩ := verifyImageInto_transfers m write hs
  refine ⟨fun hr hw => ?_, fun n hn => ?_, ?_, ?_⟩
  · by_cases hl : stream.length ≤ m.imageSize.toNat
    case pos =>
      rw [verifyImageInto_of_le hs hr hw hl]
      exact m.judge_eq_ok hl
    case neg =>
      have ⟨o, _, ho⟩ := verifyImageInto_of_lt hs hr hw (Nat.lt_of_not_le hl)
      rw [ho]
      exact ⟨nofun, fun h => absurd h.size.le hl⟩
  · rw [he] at hn ⊢
    have ⟨_, hok, _⟩ := Except.bind_eq_ok.mp hn
    exact ht.ok hok
  · exact he ▸ ht.part
  · exact he ▸ ht.size

-- Nothing depends on how much of a chunk is written by a write that fails.
theorem verifyImage_eq : verifyImage m source (fun i bytes => (write i bytes).mapError Prod.fst) =
    (verifyImageInto m source write).1.map fun _ => (verifyImageInto m source write).2 := by
  have hw : (fun i bytes => ((write i bytes).mapError Prod.fst).mapError BootError.io) =
      fun i bytes => ((write i bytes).mapError fun (e, n) => (BootError.io e, n)).mapError Prod.fst := by
    funext i bytes
    cases write i bytes <;> rfl
  unfold verifyImage verifyImageInto
  dsimp only
  rw [hw, copy_eq_transfer]
  generalize (source.mapError BootError.io).transfer _ _ _ _ _ = res
  rcases res with ⟨_ | _, sink⟩
  · rfl
  · change (m.judge sink.data >>= fun _ => _) = (m.judge sink.data).map _
    cases m.judge sink.data <;> rfl

-- A reading that delivers all of a stream.
structure ImageIo.Delivers (io : ImageIo) (source : Reader IoError) (stream : Bytes) : Prop where
  memory   : io.memory = .ok ()
  «open»   : io.open = .ok source
  splits   : source.Splits stream
  reliable : source.Reliable
  accepts  : Accepts io.write

theorem ImageIo.Delivers.result {io : ImageIo} (h : io.Delivers source stream) (path : String) {e : BootError}
    (he : (verifyImageInto m source fun i bytes => (io.write i bytes).mapError (·, 0)).1 = .error e)
    (hb : e.provesBadContent) : io.result path m = .error (.provenBad e) := by
  have hw : io.write = fun i bytes => ((io.write i bytes).mapError (·, 0)).mapError Prod.fst := by
    funext i bytes
    cases io.write i bytes <;> rfl
  have hv : verifyImage m source io.write = .error e := by
    rw [hw, verifyImage_eq, he]
    rfl
  rw [ImageIo.result, h.memory, h.open]
  change (verifyImage m source io.write).mapError _ = _
  rw [hv]
  change Except.error (if e.provesBadContent then _ else _) = _
  rw [if_pos hb]

theorem ReleaseManifest.judge_eq_error {e : BootError} (h : m.judge stream = .error e) :
    e.provesBadContent ∧ sameMismatch e e := by
  unfold judge Except.ensure at h
  dsimp only at h
  split at h
  · split at h
    · cases h
    · cases h
      exact ⟨rfl, decide_eq_true rfl⟩
  · cases h
    exact ⟨rfl, decide_eq_true rfl⟩

-- What two readings come to.
def confirmed (first second : Except LoadFailure File) : Except LoadFailure File :=
  match first with
  | .error (.provenBad e) =>
    match second with
    | .error (.provenBad e') =>
      if sameMismatch e e' then .error (.provenBad e)
      else .error <| .transient <| "two reads of the image disagreed with each other (" ++ e.display ++ "; " ++
        e'.display ++ "): the medium is unreliable"
    | other                  => other
  | other                 => other

-- The file of the image of a slot.
def imagePath (slot : String) : String :=
  MEDIA ++ "/jlr/slot-" ++ slot ++ "/base.sqfs"

theorem loadImage_eq (slot : String) (m : ReleaseManifest) (t : Trial) : ∃ t',
    loadImage slot m t = (.ok (confirmed ((t.io.image t.tick).result (imagePath slot) m)
      ((t.io.image (t.tick + 1)).result (imagePath slot) m)), t') := by
  let path := imagePath slot
  have hr (reading : Reading) (t : Trial) : readImage slot m reading t = (.ok ((t.io.image t.tick).result path m),
      { t with tick := t.tick + 1, done := t.done ++ [.read slot ((t.io.image t.tick).result path m)] }) := rfl
  rw [loadImage, confirm, bind_ok (hr ..)]
  rcases (t.io.image t.tick).result path m with (why | e) | image
  case error.transient => exact ⟨_, rfl⟩
  case ok => exact ⟨_, rfl⟩
  case error.provenBad =>
    dsimp only
    rw [bind_ok (hr ..)]
    dsimp only
    rcases (t.io.image (t.tick + 1)).result path m with (why | e') | image
    case error.transient => exact ⟨_, rfl⟩
    case ok => exact ⟨_, rfl⟩
    case error.provenBad =>
      dsimp only [confirmed]
      split <;> exact ⟨_, rfl⟩

-- Two readings of a stream that is too long agree if they notice it at the same place.
theorem confirmed_of_lt {io io' : ImageIo} (path : String) (h : io.Delivers source stream)
    (h' : io'.Delivers source' stream) (hl : m.imageSize.toNat < stream.length) :
    ∃ o o', source.Crosses m.imageSize.toNat o ∧ source'.Crosses m.imageSize.toNat o' ∧
      confirmed (io.result path m) (io'.result path m) =
        if o = o' then .error (.provenBad (.imageSize m.imageSize (.ofNat o)))
        else .error <| .transient <| "two reads of the image disagreed with each other (" ++
          (BootError.imageSize m.imageSize (.ofNat o)).display ++ "; " ++
          (BootError.imageSize m.imageSize (.ofNat o')).display ++ "): the medium is unreliable" := by
  have ⟨o, ho, hv⟩ := verifyImageInto_of_lt h.splits h.reliable (h.accepts.mapError (·, 0)) hl
  have ⟨o', ho', hv'⟩ := verifyImageInto_of_lt h'.splits h'.reliable (h'.accepts.mapError (·, 0)) hl
  refine ⟨o, o', ho, ho', ?_⟩
  rw [h.result path hv rfl, h'.result path hv' rfl]
  have he : UInt64.ofNat o = .ofNat o' ↔ o = o' := by
    have hlt := ho.lt
    have hlt' := ho'.lt
    rw [← UInt64.toNat_inj, UInt64.toNat_ofNat_of_lt' (hlt.trans (by decide)),
      UInt64.toNat_ofNat_of_lt' (hlt'.trans (by decide))]
  simp only [confirmed, sameMismatch, decide_eq_true_eq, he]

theorem confirmed_of_le {io io' : ImageIo} (path : String) (h : io.Delivers source stream)
    (h' : io'.Delivers source' stream) (hl : stream.length ≤ m.imageSize.toNat) (hn : ¬ m.Promises stream) :
    ∃ e, e.provesBadContent ∧ confirmed (io.result path m) (io'.result path m) = .error (.provenBad e) := by
  have hv := verifyImageInto_of_le h.splits h.reliable (h.accepts.mapError (·, 0)) hl
  have hv' := verifyImageInto_of_le h'.splits h'.reliable (h'.accepts.mapError (·, 0)) hl
  match hj : m.judge stream with
  | .ok n    => exact absurd ((m.judge_eq_ok hl).mp ⟨n, hj⟩) hn
  | .error e =>
    have ⟨hb, hs⟩ := m.judge_eq_error hj
    rw [h.result path (hv.trans hj) hb, h'.result path (hv'.trans hj) hb]
    exact ⟨e, hb, if_pos hs⟩

omit [Crypto] in
theorem confirmed_bad {first second : Except LoadFailure File} {e : BootError}
    (h : confirmed first second = .error (.provenBad e)) :
    ∃ e', first = .error (.provenBad e) ∧ second = .error (.provenBad e') := by
  unfold confirmed at h
  split at h
  case h_1 e₁ =>
    split at h
    case h_1 e₂ =>
      split at h
      · cases h
        exact ⟨e₂, rfl, rfl⟩
      · cases h
    case h_2 hn => exact absurd h (hn e)
  case h_2 hn => exact absurd h (hn e)

theorem bad_content_proven (slot : String) (m : ReleaseManifest) (t : Trial) :
    (∀ stream source source', (t.io.image t.tick).Delivers source stream →
      (t.io.image (t.tick + 1)).Delivers source' stream → ¬ m.Promises stream →
      ((∃ e t', loadImage slot m t = (.ok (.error (.provenBad e)), t') ∧
          ∀ state : BootState, state.recordImageFailure slot e = (true, state.markBad slot)) ↔
        (stream.length ≤ m.imageSize.toNat ∨
          ∃ o, source.Crosses m.imageSize.toNat o ∧ source'.Crosses m.imageSize.toNat o))) ∧
    ∀ e t', loadImage slot m t = (.ok (.error (.provenBad e)), t') → ∃ e',
      (t.io.image t.tick).result (imagePath slot) m = .error (.provenBad e) ∧
      (t.io.image (t.tick + 1)).result (imagePath slot) m = .error (.provenBad e') := by
  have ⟨t₁, hx⟩ := loadImage_eq slot m t
  constructor
  case left =>
    intro stream source source' h h' hn
    rw [hx]
    by_cases hl : stream.length ≤ m.imageSize.toNat
    case pos =>
      have ⟨e, hb, he⟩ := confirmed_of_le (imagePath slot) h h' hl hn
      rw [he]
      exact ⟨fun _ => .inl hl, fun _ => ⟨e, t₁, rfl, fun state => if_pos hb⟩⟩
    case neg =>
      have ⟨o, o', ho, ho', he⟩ := confirmed_of_lt (imagePath slot) h h' (Nat.lt_of_not_le hl)
      rw [he]
      constructor
      case mp =>
        intro ⟨e, t', hr, _⟩
        split at hr
        case isTrue heq => exact .inr ⟨o, ho, heq ▸ ho'⟩
        case isFalse    => cases hr
      case mpr =>
        rintro (hl' | ⟨c, hc, hc'⟩)
        · exact absurd hl' hl
        · have heq : o = o' := (ho.unique hc).trans (hc'.unique ho')
          rw [if_pos heq]
          exact ⟨_, t₁, rfl, fun _ => rfl⟩
  case right =>
    intro e t' hl
    rw [hx] at hl
    exact confirmed_bad (Except.ok.inj (Prod.mk.inj hl).left)

end

-- An image of a release, and one that is too long for its manifest.
namespace Released

attribute [local instance] crypto

theorem length_image : image.length < 2 ^ 63 := by
  decide

def imageFile : File := ⟨image, length_image⟩

def writes (_ : Nat) (_ : Bytes) : Except ε Unit := .ok ()

theorem promises_image : manifest.Promises image where
  size   := rfl
  digest := by decide +kernel

theorem image_verified_exactly_image : (chunks 3 imageFile : Reader IoError).Splits image ∧
    (∃ n, (verifyImageInto manifest (chunks 3 imageFile) writes).1 = .ok n) ∧
    (verifyImageInto manifest (chunks 3 imageFile) writes).2.data = image := by
  have hs : (chunks 3 imageFile : Reader IoError).Splits image := splits_chunks (by decide) imageFile
  have h := image_verified_exactly manifest image (chunks 3 imageFile) writes hs
  have ⟨n, hn⟩ := (h.left (reliable_chunks imageFile) nofun).mpr promises_image
  exact ⟨hs, ⟨n, hn⟩, h.right.left n hn⟩

def longFile : File := ⟨image ++ [0, 0], by decide⟩

-- The first reading gets everything at once, and the second one 5 bytes first.
def stick : MediumIo where
  mount    := some "vfat"
  manifest := fun _ => .ok bytes
  image    := fun tick => {
    memory := .ok ()
    «open» := .ok (chunks (6 - tick) longFile)
    write  := writes
  }
  remount  := fun _ => .ok ()
  write    := fun _ => .ok ()
  addSeals := .ok ()

theorem delivers_stick (tick : Nat) (h : tick < 6) :
    (stick.image tick).Delivers (chunks (6 - tick) longFile) longFile.data where
  memory   := rfl
  «open»   := rfl
  splits   := splits_chunks (Nat.sub_pos_of_lt h) longFile
  reliable := reliable_chunks longFile
  accepts  := nofun

theorem too_long_transient : ¬ manifest.Promises longFile.data ∧
    (stick.image 0).Delivers (chunks 6 longFile) longFile.data ∧
    (stick.image 1).Delivers (chunks 5 longFile) longFile.data ∧
    ∃ t', loadImage "b" manifest (.new stick) =
      (.ok (.error (.transient ("two reads of the image disagreed with each other (image size mismatch: manifest 4, " ++
        "image 6; image size mismatch: manifest 4, image 5): the medium is unreliable"))), t') := by
  have hd : (stick.image 0).Delivers (chunks 6 longFile) longFile.data := delivers_stick 0 (by decide)
  have hd' : (stick.image 1).Delivers (chunks 5 longFile) longFile.data := delivers_stick 1 (by decide)
  have ⟨t', ht⟩ := loadImage_eq "b" manifest (.new stick)
  have ⟨o, o', ho, ho', hc⟩ := confirmed_of_lt (m := manifest) (imagePath "b") hd hd' (by decide)
  have h6 : o = 6 := ho.unique ⟨0, 0, rfl, by decide, rfl, by decide⟩
  have h5 : o' = 5 := ho'.unique ⟨0, 0, rfl, by decide, rfl, by decide⟩
  subst h6 h5
  rw [if_neg (by decide)] at hc
  refine ⟨fun h => absurd h.size (by decide), hd, hd', t', ht.trans ?_⟩
  refine congrArg (fun r => (Except.ok r, t')) (hc.trans ?_)
  refine congrArg (fun why => Except.error (LoadFailure.transient why)) ?_
  decide +kernel

end Released
