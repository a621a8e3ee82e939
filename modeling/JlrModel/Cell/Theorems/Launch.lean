import JlrModel.Cell.Launch
import JlrModel.Cell.Theorems.Init
import JlrModel.Theorems.Records

open Cbor

namespace Stage2

variable {io : Stage2Io} {spec : CellSpec} {nsNote cgroupName : String}

theorem executes_iff (hm : .mountNs ∈ spec.parsedMandatory) : (stage2 io spec nsNote cgroupName).executes ↔
    (stage2 io spec nsNote cgroupName).report.status ≠ .refused := by
  constructor
  case mp =>
    unfold stage2
    cases io.buildRoot spec
    case error => nofun
    case ok => exact of_decide_eq_true
  case mpr =>
    intro hs
    obtain ⟨b, _, hb, h, _⟩ := stage2_clean io spec nsNote cgroupName
    obtain ⟨layout, hl⟩ := (h.mandatory (hb ▸ hs) hm).left
    revert hs
    rw [stage2, hl]
    exact decide_eq_true

end Stage2

namespace Cell

section Spec

theorem hexByte_digits {n k : Nat} (hn : n < 16) (hk : k < 16) :
    hexByte (Text.fromDigit n) (Text.fromDigit k) = some (.ofNat (n * 16 + k)) := by
  have hne : Text.fromDigit n ≠ '+' := by
    revert hn
    revert n
    decide
  simp [hexByte, hne, Text.toDigit_fromDigit hn, Text.toDigit_fromDigit hk]

theorem hexBytes_hexDigits (bs : Bytes) : hexBytes (Text.hexDigits bs) = some bs := by
  induction bs
  case nil => rfl
  case cons b bs ih =>
    have hb := b.toNat_lt
    have hd : b.toNat / 16 < 16 := by omega
    have he : b.toNat / 16 * 16 + b.toNat % 16 = b.toNat := by omega
    rw [Text.hexDigits_cons, hexBytes, ih, hexByte_digits hd (Nat.mod_lt _ (by decide)), he]
    simp

theorem unhex_hex (bs : Bytes) : unhex (Text.hex bs) = some bs := by
  have ha : Text.isAscii (Text.hex bs) := Text.isAscii_hex
  rw [unhex, Text.len_hex, if_neg (by simp [ha]), Text.hex, String.toList_ofList]
  exact hexBytes_hexDigits bs

variable {spec : CellSpec}

-- A specification reaches the helper as it is.
structure Sendable (spec : CellSpec) : Prop where
  capabilities : ∀ c ∈ spec.capabilities, ∃ s, Capability.parse s = .ok c
  length_lt    : (toCbor spec).length < 2 ^ 64

theorem Sendable.fromCbor_eq (h : Sendable spec) : fromCbor CellSpec (toCbor spec) = .ok spec :=
  fromCbor_toCbor (RecordType.levels_le .cellSpec) (RecordType.valid_of_capabilities (t := .cellSpec) h.capabilities)
    h.length_lt

variable [Crypto] {l : Launch}

theorem Sendable.cellMain_first (h : Sendable spec) :
    l.cellMain ["stage1", encodeSpec spec] = l.first spec (encodeSpec spec) := by
  have hu : unhex (encodeSpec spec) = some (toCbor spec) := unhex_hex _
  simp only [Launch.cellMain, hu, h.fromCbor_eq, if_pos]

theorem Sendable.cellMain_second (h : Sendable spec) (nsNote cgroupName : String) :
    l.cellMain ["stage2", encodeSpec spec, nsNote, cgroupName] = l.second spec nsNote cgroupName := by
  have hu : unhex (encodeSpec spec) = some (toCbor spec) := unhex_hex _
  have hne : "stage2" ≠ "stage1" := by decide
  simp only [Launch.cellMain, hu, h.fromCbor_eq, if_neg hne, if_pos, List.head?_cons, List.tail_cons, Option.getD_some]

end Spec

section Stage1

variable {io : Stage1Io} {spec : CellSpec} {specHex : String} {args : List String} {r : EnforcementReport}

open Stage1

-- The first stage only goes on if all that it was to do is done.
theorem stage1_ok (h : stage1 io spec specHex = .ok args) :
    io.setsid = .ok () ∧ io.unshare (namespaces io spec) = .ok () ∧ (useUserNs io → mapIds io = .ok ()) ∧
      args = ["stage2", specHex, nsNote io spec, cgroupName io] := by
  unfold stage1 at h
  obtain ⟨_, hs, h⟩ := Except.bind_eq_ok.mp h
  obtain ⟨_, hu, h⟩ := Except.bind_eq_ok.mp h
  have hs := Except.mapError_eq_ok.mp hs
  have hu := Except.mapError_eq_ok.mp hu
  split at h
  case isTrue hn =>
    obtain ⟨_, hm, h⟩ := Except.bind_eq_ok.mp h
    obtain ⟨_, _, h⟩ := Except.bind_eq_ok.mp h
    obtain ⟨_, _, h⟩ := Except.bind_eq_ok.mp h
    exact ⟨hs, hu, fun _ => Except.mapError_eq_ok.mp hm, (Except.pure_eq_ok.mp h).symm⟩
  case isFalse hn =>
    obtain ⟨_, _, h⟩ := Except.bind_eq_ok.mp h
    obtain ⟨_, _, h⟩ := Except.bind_eq_ok.mp h
    exact ⟨hs, hu, fun hn' => absurd hn' hn, (Except.pure_eq_ok.mp h).symm⟩

end Stage1

-- All that goes wrong in the first stage is a refusal.
def Refusing {α : Type} (x : Except EnforcementReport α) : Prop :=
  ∀ r, x = .error r → r.status = .refused

namespace Refusing

variable {α β : Type} {x : Except EnforcementReport α} {f : α → Except EnforcementReport β}

theorem bind (hx : Refusing x) (hf : ∀ a, Refusing (f a)) : Refusing (x >>= f) := by
  cases x
  case error e =>
    intro r h
    cases h
    exact hx e rfl
  case ok a => exact hf a

theorem mapError {x : Except String α} {why : String → String} {b : String → Builder} {kernel : String} :
    Refusing (x.mapError fun e => refuse (b e) kernel (why e)) := by
  cases x <;> intro r h <;> cases h
  rfl

theorem stage1 (io : Stage1Io) (spec : CellSpec) (specHex : String) : Refusing (stage1 io spec specHex) := by
  have hend {args : List String} : Refusing (pure args) := nofun
  unfold Cell.stage1
  refine .bind mapError fun _ => .bind mapError fun _ => ?_
  split
  · exact .bind mapError fun _ => .bind mapError fun _ => .bind mapError fun _ => hend
  · exact .bind mapError fun _ => .bind mapError fun _ => hend

end Refusing

section Reply

variable [Crypto] {l : Launch} {r : EnforcementReport} {w : Workload}

-- What the helper reports and does then, as if there were nothing between it and the launcher.
def Launch.reply (l : Launch) : EnforcementReport × Next :=
  match stage1 l.outer l.spec (encodeSpec l.spec) with
  | .error report => (report, .leaves)
  | .ok _         => (l.cell.report, if l.cell.executes then .executes (workload l.exe.file l.spec) else .leaves)

omit [Crypto] in
-- The decision that a cell is made for asks for a root of its own.
theorem mountNs_mandatory {d : Decision} {argv env : List String} {spec : CellSpec}
    (h : CellSpec.fromDecision d argv env = .ok spec) : .mountNs ∈ spec.parsedMandatory := by
  rw [CellSpec.parsedMandatory_fromDecision h]
  simp [CellSpec.mandatoryControls]

-- A program is started exactly if its report is no refusal.
theorem Launch.reply_executes (hm : .mountNs ∈ l.spec.parsedMandatory) :
    l.reply.1.status ≠ .refused ↔ l.reply.2 = .executes (workload l.exe.file l.spec) := by
  unfold reply
  cases h : stage1 l.outer l.spec (encodeSpec l.spec)
  case error r =>
    have hr := Refusing.stage1 _ _ _ r h
    simp [hr]
  case ok =>
    have he : l.cell.executes ↔ l.cell.report.status ≠ .refused := Stage2.executes_iff hm
    dsimp only
    rw [← he]
    split <;> simp_all

theorem Launch.second_executes (l : Launch) (h : l.cell.executes) :
    l.second l.spec (Stage1.nsNote l.outer l.spec) (Stage1.cgroupName l.outer) =
      .executes l.cell.report (workload l.exe.file l.spec) :=
  if_pos h

theorem Launch.second_refuses (l : Launch) (h : ¬ l.cell.executes) :
    l.second l.spec (Stage1.nsNote l.outer l.spec) (Stage1.cgroupName l.outer) = .refuses l.cell.report :=
  if_neg h

theorem Launch.reply_next (l : Launch) :
    l.reply.2 = .leaves ∨ l.reply.2 = .executes (workload l.exe.file l.spec) := by
  unfold reply
  split
  · exact .inl rfl
  · dsimp only
    split
    · exact .inr rfl
    · exact .inl rfl

end Reply

section Message

variable {r r' : EnforcementReport} {written : Bytes} {n : Nat}

theorem length_message : (message r).length = 4 + (toCbor r).length := by
  simp [message]

-- The length that is read is the one that was written, in 32 bits.
theorem length_of_written (h : written <+: message r) (hl : 4 ≤ written.length) :
    Bytes.toNat (written.take 4) = (toCbor r).length % 2 ^ 32 := by
  have ht : written.take 4 = Bytes.ofNat 4 (toCbor r).length := by
    obtain ⟨rest, h⟩ := h
    have h := congrArg (List.take 4) h
    rw [List.take_append_of_le_length hl] at h
    rw [h, message, List.take_append_of_le_length (by simp), List.take_of_length_le (by simp)]
  rw [ht, Bytes.toNat_ofNat_mod, show 256 ^ 4 = 2 ^ 32 from rfl]

theorem body_of_written (h : written <+: message r) (hl : 4 + n ≤ written.length) :
    (written.drop 4).take n = (toCbor r).take n := by
  obtain ⟨rest, h⟩ := h
  have h : ((written ++ rest).drop 4).take n = ((message r).drop 4).take n := by rw [h]
  rw [List.drop_append_of_le_length (by omega), List.take_append_of_le_length (by rw [List.length_drop]; omega)] at h
  rw [h, message, List.drop_append_of_le_length (by simp), List.drop_eq_nil_of_le (by simp), List.nil_append]

theorem fromCbor_report (hl : (toCbor r).length < 2 ^ 64) : fromCbor EnforcementReport (toCbor r) = .ok r :=
  fromCbor_toCbor (RecordType.levels_le .enforcementReport)
    (RecordType.valid_of_capabilities (t := .enforcementReport) nofun) hl

-- A report that is read was written whole.
theorem report_of_written (hl : (toCbor r).length < 2 ^ 64) (h : written <+: message r) (hn : 4 + n ≤ written.length)
    (hr : fromCbor EnforcementReport ((written.drop 4).take n) = .ok r') : r' = r ∧ written = message r := by
  rw [body_of_written h hn] at hr
  have he := fromCbor_take (fromCbor_report hl) hr
  subst he
  have hb := congrArg List.length (toCbor_of_fromCbor hr)
  rw [List.length_take] at hb
  refine ⟨rfl, h.eq_of_length_le ?_⟩
  rw [length_message]
  omega

end Message

section Invariant

variable [Crypto]

-- What is in the pipe, by the state of the helper. Only if something is lost, a part of the report is missing.
inductive Sent (l : Launch) (lossy : Prop) : Helper → Bytes → Prop
  | first : Sent l lossy (.started ["stage1", encodeSpec l.spec]) []
  | second : stage1 l.outer l.spec (encodeSpec l.spec) = .ok args → Sent l lossy (.started args) []
  | sending : written ++ rest = message l.reply.1 → Sent l lossy (.sending rest l.reply.2) written
  | lost : lossy → written <+: message l.reply.1 → Sent l lossy (.sending [] l.reply.2) written
  | executing : l.reply.2 = .executes w → written <+: message l.reply.1 → (¬ lossy → written = message l.reply.1) →
    Sent l lossy (.executing w) written
  | ended : written <+: message l.reply.1 → (¬ lossy → written = message l.reply.1) → Sent l lossy .ended written

-- How far the launcher has come. Only if something has failed, it may end in an error that is not a refusal.
inductive Got (l : Launch) (failed : Prop) (written : Bytes) (read : Nat) : Parent → Prop
  | length : read ≤ 4 → Got l failed written read .length
  | body : 4 ≤ read → read ≤ 4 + n → n = Bytes.toNat (written.take 4) → Got l failed written read (.body n)
  | lost : failed → Got l failed written read (.waiting none)
  | refused : l.reply.1.status = .refused → written = message l.reply.1 →
    Got l failed written read (.waiting (some l.reply.1))
  | ok : l.reply.1.status ≠ .refused → written = message l.reply.1 → Got l failed written read (.done (.ok l.reply.1))
  | refusal : l.reply.1.status = .refused → Got l failed written read (.done (.error (.refused l.reply.1)))
  | error : failed → (∀ r, e ≠ .refused r) → Got l failed written read (.done (.error e))

variable {l : Launch} {f g : Prop} {a : Actor} {as : List Actor} {s s' : System} {args : List String} {written : Bytes}
  {helper : Helper} {parent : Parent} {next : Next} {w : Workload} {n : Nat}

namespace Sent

theorem mono (h : Sent l f helper written) (hg : f → g) : Sent l g helper written := by
  cases h
  case first => exact .first
  case second h => exact .second h
  case sending h => exact .sending h
  case lost hf h => exact .lost (hg hf) h
  case executing hw h hn => exact .executing hw h fun hg' => hn fun hf => hg' (hg hf)
  case ended h hn => exact .ended h fun hg' => hn fun hf => hg' (hg hf)

theorem isPrefix (h : Sent l f helper written) : written <+: message l.reply.1 := by
  cases h
  case first => exact List.nil_prefix
  case second => exact List.nil_prefix
  case sending h => exact ⟨_, h⟩
  case lost h => exact h
  case executing h _ => exact h
  case ended h _ => exact h

-- What a process of the helper may do when it is started.
theorem course (hs : Sendable l.spec) (h : Sent l f (.started args) written) : written = [] ∧
    ((∃ args', l.cellMain args = .spawns args' ∧ stage1 l.outer l.spec (encodeSpec l.spec) = .ok args' ∧
        args.head? = some "stage1") ∨
      (l.cellMain args = .refuses l.reply.1 ∧ l.reply.2 = .leaves) ∨
      ∃ w, l.cellMain args = .executes l.reply.1 w ∧ l.reply.2 = .executes w) := by
  cases h
  case first =>
    refine ⟨rfl, ?_⟩
    rw [hs.cellMain_first, Launch.first, Launch.reply]
    cases h : stage1 l.outer l.spec (encodeSpec l.spec)
    case error => exact .inr (.inl ⟨rfl, rfl⟩)
    case ok args => exact .inl ⟨args, rfl, rfl, rfl⟩
  case second h =>
    refine ⟨rfl, .inr ?_⟩
    obtain ⟨_, _, _, rfl⟩ := stage1_ok h
    rw [hs.cellMain_second, Launch.reply, h]
    by_cases he : l.cell.executes
    · rw [l.second_executes he]
      exact .inr ⟨_, rfl, if_pos he⟩
    · rw [l.second_refuses he]
      exact .inl ⟨rfl, if_neg he⟩

theorem next_eq {rest : Bytes} (h : Sent l f helper written) (hh : helper = .sending rest next) : next = l.reply.2 := by
  cases h <;> cases hh <;> rfl

theorem executed (h : Sent l f (.executing w) written) :
    written <+: message l.reply.1 ∧ (¬ f → written = message l.reply.1) := by
  cases h
  case executing hp hw => exact ⟨hp, hw⟩

-- The report is sent, unless a part of it was lost.
theorem emptied (h : Sent l f (.sending [] next) written) : next = l.reply.2 ∧ (¬ f → written = message l.reply.1) := by
  cases h
  case sending h => exact ⟨rfl, fun _ => by rwa [List.append_nil] at h⟩
  case lost hf _ => exact ⟨rfl, absurd hf⟩

-- Once the report is there, the helper has nothing left to send.
theorem whole (h : Sent l f helper written) (hw : written = message l.reply.1) :
    helper = .ended ∨ (∃ w, helper = .executing w ∧ l.reply.2 = .executes w) ∨ helper = .sending [] l.reply.2 := by
  have hne : message l.reply.1 ≠ [] := by
    intro he
    have := congrArg List.length he
    rw [length_message, List.length_nil] at this
    omega
  cases h
  case first => exact absurd hw.symm hne
  case second => exact absurd hw.symm hne
  case sending rest h =>
    rw [hw] at h
    rw [List.self_eq_append_right.mp h.symm]
    exact .inr (.inr rfl)
  case lost => exact .inr (.inr rfl)
  case executing w hn _ _ => exact .inr (.inl ⟨w, rfl, hn⟩)
  case ended => exact .inl rfl

end Sent

theorem Got.mono {read : Nat} (h : Got l f written read parent) (hg : f → g) : Got l g written read parent := by
  cases h
  case length h => exact .length h
  case body h h' hn => exact .body h h' hn
  case lost hf => exact .lost (hg hf)
  case refused h h' => exact .refused h h'
  case ok h h' => exact .ok h h'
  case refusal h => exact .refusal h
  case error hf h => exact .error (hg hf) h

omit [Crypto] in
theorem Parent.Expects.not_done (h : parent.Expects n) (r : Except CellError EnforcementReport) : parent ≠ .done r := by
  cases h <;> nofun

omit [Crypto] in
theorem Parent.expects_or_waiting (parent : Parent) (h : ∀ r, parent ≠ .done r) :
    (∃ n, parent.Expects n) ∨ ∃ refusal, parent = .waiting refusal := by
  cases parent
  case length => exact .inl ⟨_, .length⟩
  case body => exact .inl ⟨_, .body⟩
  case waiting => exact .inr ⟨_, rfl⟩
  case done r => exact absurd rfl (h r)

structure Inv (l : Launch) (failed : Prop) (s : System) : Prop where
  sent    : Sent l (failed ∨ ∃ r, s.parent = .done r) s.helper s.written
  read_le : s.read ≤ s.written.length
  got     : Got l failed s.written s.read s.parent
  ended   : ∀ r, s.parent = .done (.error (.refused r)) → s.helper = .ended

namespace Inv

theorem mono (h : Inv l f s) (hg : f → g) : Inv l g s where
  sent    := h.sent.mono (.imp_left hg)
  read_le := h.read_le
  got     := h.got.mono hg
  ended   := h.ended

-- The helper goes on without writing anything.
theorem toHelper (h : Inv l f s) (hs : Sent l (f ∨ ∃ r, s.parent = .done r) helper s.written)
    (ho : s.helper = .ended → helper = .ended) : Inv l f { s with helper } where
  sent    := hs
  read_le := h.read_le
  got     := h.got
  ended r hr := ho (h.ended r hr)

theorem started (h : Inv l f s) (hs : Sendable l.spec) (ha : s.helper = .started args) : s.written = [] ∧
    ((∃ args', l.cellMain args = .spawns args' ∧ stage1 l.outer l.spec (encodeSpec l.spec) = .ok args' ∧
        args.head? = some "stage1") ∨
      (l.cellMain args = .refuses l.reply.1 ∧ l.reply.2 = .leaves) ∨
      ∃ w, l.cellMain args = .executes l.reply.1 w ∧ l.reply.2 = .executes w) :=
  (ha ▸ h.sent).course hs

-- Without a failure nothing is missing in what the launcher reads.
theorem length_eq (h : Inv l f s) (hb : 2 ^ 20 < (toCbor l.reply.1).length → f) (hf : ¬ f) (hl : 4 ≤ s.written.length) :
    Bytes.toNat (s.written.take 4) = (toCbor l.reply.1).length := by
  rw [length_of_written h.sent.isPrefix hl, Nat.mod_eq_of_lt]
  have := mt hb hf
  omega

theorem toParent (h : Inv l f s) (hp : ∀ r, s.parent ≠ .done r) (hg : Got l f s.written s.read parent)
    (ho : ∀ r, parent = .done (.error (.refused r)) → s.helper = .ended) : Inv l f { s with parent } where
  sent    := h.sent.mono fun | .inl hf => .inl hf | .inr ⟨r, hr⟩ => absurd hr (hp r)
  read_le := h.read_le
  got     := hg
  ended   := ho

theorem afterLength (h : Inv l f s) (hb : 2 ^ 20 < (toCbor l.reply.1).length → f) (hp : s.parent = .length)
    (hr : s.read = 4) : Inv l f { s with parent := .afterLength (s.written.take 4) } := by
  have hw : 4 ≤ s.written.length := hr ▸ h.read_le
  refine h.toParent (by rw [hp]; nofun) ?_ ?_
  · unfold Parent.afterLength
    extract_lets n
    split
    case isTrue hn =>
      refine .error ?_ nofun
      by_contra hf
      have hlen : n = _ := h.length_eq hb hf hw
      have hpos := encode_length_pos (toValue l.reply.1)
      have := mt hb hf
      unfold toCbor at hlen this
      omega
    case isFalse => exact .body hr.ge (by omega) rfl
  · unfold Parent.afterLength
    extract_lets n
    split <;> nofun

theorem afterBody (h : Inv l f s) (hl : (toCbor l.reply.1).length < 2 ^ 64)
    (hb : 2 ^ 20 < (toCbor l.reply.1).length → f) (hp : s.parent = .body n) (hr : s.read = 4 + n) :
    Inv l f { s with parent := .afterBody ((s.written.drop 4).take n) } := by
  have hw : 4 + n ≤ s.written.length := hr ▸ h.read_le
  refine h.toParent (by rw [hp]; nofun) ?_ ?_
  · unfold Parent.afterBody
    cases hc : fromCbor EnforcementReport ((s.written.drop 4).take n)
    case error e =>
      refine .error ?_ nofun
      by_contra hf
      have hn : n = Bytes.toNat (s.written.take 4) := by
        have hg := h.got
        rw [hp] at hg
        cases hg
        assumption
      rw [h.length_eq hb hf (by omega)] at hn
      rw [body_of_written h.sent.isPrefix hw, hn, List.take_length, fromCbor_report hl] at hc
      cases hc
    case ok r =>
      obtain ⟨rfl, he⟩ := report_of_written hl h.sent.isPrefix hw hc
      dsimp only
      split
      case isTrue hs => exact .refused hs he
      case isFalse hs => exact .ok hs he
  · unfold Parent.afterBody
    cases fromCbor EnforcementReport ((s.written.drop 4).take n)
    case error => nofun
    case ok r =>
      dsimp only
      split <;> nofun

-- The launcher only fails to read what was not written.
theorem afterFailure (h : Inv l f s) (hf : f) (hp : s.parent.Expects n) (e : String) :
    Inv l f { s with parent := s.parent.afterFailure e } := by
  refine h.toParent hp.not_done ?_ ?_ <;> generalize s.parent = p at hp <;> cases hp <;> simp only [Parent.afterFailure]
  case refine_1.length => exact .lost hf
  case refine_1.body => exact .error hf nofun
  case refine_2.length => nofun
  case refine_2.body => nofun

theorem failed_of_closed (h : Inv l f s) (hb : 2 ^ 20 < (toCbor l.reply.1).length → f) (hp : s.parent.Expects n)
    (hr : s.read < n) (hw : s.read = s.written.length) (hh : s.helper = .ended) : f := by
  by_contra hf
  have hn : ¬ (f ∨ ∃ r, s.parent = .done r) := by
    rintro (hf' | ⟨r, hd⟩)
    · exact hf hf'
    · exact hp.not_done r hd
  have hs := h.sent
  rw [hh] at hs
  cases hs
  case ended _ he =>
    have hlen := congrArg List.length (he hn)
    rw [length_message] at hlen
    have hlen' := h.length_eq hb hf (by omega)
    have hg := h.got
    generalize s.parent = p at hp hg
    cases hp
    case length => omega
    case body =>
      cases hg
      omega

theorem write {chunk rest : Bytes} (h : Inv l f s) (hh : s.helper = .sending (chunk ++ rest) next) (hne : chunk ≠ [])
    (hp : ∀ r, s.parent ≠ .done r) : Inv l f { s with helper := .sending rest next, written := s.written ++ chunk } := by
  have hs := h.sent
  rw [hh] at hs
  generalize hx : chunk ++ rest = x at hs
  cases hs
  case lost => exact absurd (List.append_eq_nil_iff.mp hx).left hne
  case sending he =>
    subst hx
    refine ⟨.sending (by rw [← he, List.append_assoc]), ?_, ?_, fun r hr => absurd hr (hp _)⟩
    · have := h.read_le
      simp only [List.length_append]
      omega
    · have hg := h.got
      have hr := h.read_le
      dsimp only
      generalize s.parent = p at hg hp
      cases hg
      case length hr => exact .length hr
      case body h₄ hn he => exact .body h₄ hn (by rwa [List.take_append_of_le_length (by omega)])
      case lost hf => exact .lost hf
      case refused he' =>
        rw [he'] at he
        exact absurd (List.append_eq_nil_iff.mp (List.self_eq_append_right.mp he.symm)).left hne
      case ok => exact absurd rfl (hp _)
      case refusal => exact absurd rfl (hp _)
      case error => exact absurd rfl (hp _)

theorem read (h : Inv l f s) {k : Nat} (hp : s.parent.Expects n) (hk : s.read < k) (hn : k ≤ n)
    (hw : k ≤ s.written.length) : Inv l f { s with read := k } := by
  refine ⟨h.sent, hw, ?_, h.ended⟩
  have hg := h.got
  dsimp only
  generalize s.parent = p at hp hg
  cases hp <;> cases hg
  case length => exact .length hn
  case body h₄ _ he => exact .body (by omega) hn he

theorem waited {refusal : Option EnforcementReport} (h : Inv l f s) (hp : s.parent = .waiting refusal)
    (hh : s.helper = .ended) (status : Except String String) :
    Inv l f { s with parent := .done (.error (Parent.afterWait status refusal)) } := by
  refine h.toParent (by rw [hp]; nofun) ?_ fun _ _ => hh
  have hg := h.got
  rw [hp] at hg
  cases hg
  case lost hf => exact .error hf (by cases status <;> nofun)
  case refused hs _ => exact .refusal hs

-- Whoever makes a step, the invariant is kept.
theorem step (hs : Sendable l.spec) (hl : (toCbor l.reply.1).length < 2 ^ 64)
    (hb : 2 ^ 20 < (toCbor l.reply.1).length → f) (ha : a = .fault → f) (h : Inv l f s) (st : Step l a s s') :
    Inv l f s' := by
  cases st
  case exits hc hh =>
    obtain ⟨_, ⟨_, hc', _, _⟩ | ⟨hc', _⟩ | ⟨_, hc', _⟩⟩ := h.started hs hh <;> rw [hc'] at hc <;> cases hc
  case refuses hc hh =>
    obtain ⟨hw, ⟨_, hc', _, _⟩ | ⟨hc', hn⟩ | ⟨_, hc', _⟩⟩ := h.started hs hh <;> rw [hc'] at hc <;> cases hc
    exact h.toHelper (hn ▸ .sending (by rw [hw]; rfl)) (by rw [hh]; nofun)
  case spawns hc hh =>
    obtain ⟨hw, ⟨_, hc', hn, _⟩ | ⟨hc', _⟩ | ⟨_, hc', _⟩⟩ := h.started hs hh <;> rw [hc'] at hc <;> cases hc
    exact h.toHelper (hw ▸ .second hn) (by rw [hh]; nofun)
  case executes hc hh =>
    obtain ⟨hw, ⟨_, hc', _, _⟩ | ⟨hc', _⟩ | ⟨_, hc', hn⟩⟩ := h.started hs hh <;> rw [hc'] at hc <;> cases hc
    exact h.toHelper (hn ▸ .sending (by rw [hw]; rfl)) (by rw [hh]; nofun)
  case write hne hh hp => exact h.write hh hne hp
  case unread hne hh hp =>
    have hn := h.sent.next_eq hh
    exact h.toHelper (hn ▸ .lost (.inr ⟨_, hp⟩) h.sent.isPrefix) (by rw [hh]; nofun)
  case leave hh => exact h.toHelper (.ended h.sent.isPrefix (hh ▸ h.sent).emptied.right) (fun _ => rfl)
  case exec hh =>
    obtain ⟨hn, hw⟩ := (hh ▸ h.sent).emptied
    exact h.toHelper (.executing hn.symm h.sent.isPrefix hw) (by rw [hh]; nofun)
  case read k hk hp hr hw => exact h.read hp hr hk hw
  case length hp hr => exact h.afterLength hb hp hr
  case body hp hr => exact h.afterBody hl hb hp hr
  case closed hp hr hw hh => exact h.afterFailure (h.failed_of_closed hb hp hr hw hh) hp _
  case waited hp hh => exact h.waited hp hh _
  case finish hh =>
    obtain ⟨hp, hw⟩ := (hh ▸ h.sent).executed
    exact h.toHelper (.ended hp hw) fun _ => rfl
  case lose hh =>
    have hn := h.sent.next_eq hh
    exact h.toHelper (hn ▸ .lost (.inl (ha rfl)) h.sent.isPrefix) (by rw [hh]; nofun)
  case noExec hh => exact h.toHelper (.ended h.sent.isPrefix fun hn => absurd (.inl (ha rfl)) hn) fun _ => rfl
  case kill => exact h.toHelper (.ended h.sent.isPrefix fun hn => absurd (.inl (ha rfl)) hn) fun _ => rfl
  case unreadable hp => exact h.afterFailure (ha rfl) hp _

-- How many steps the helper and the launcher have left at most, unless something fails.
def helperLeft (l : Launch) : Helper → Nat
  | .started args   => (message l.reply.1).length + if args.head? = some "stage1" then 4 else 3
  | .sending rest _ => rest.length + 2
  | .executing _    => 1
  | .ended          => 0

def parentLeft (l : Launch) (read : Nat) : Parent → Nat
  | .length    => 4 - read + (toCbor l.reply.1).length + 3
  | .body n    => 4 + n - read + 2
  | .waiting _ => 1
  | .done _    => 0

def left (l : Launch) (s : System) : Nat :=
  helperLeft l s.helper + parentLeft l s.read s.parent

theorem left_helper (h : helperLeft l helper < helperLeft l s.helper) : left l { s with helper } < left l s :=
  Nat.add_lt_add_right h _

theorem left_parent (h : parentLeft l s.read parent < parentLeft l s.read s.parent) :
    left l { s with parent } < left l s :=
  Nat.add_lt_add_left h _

theorem left_afterLength (h : Inv l f s) (hr : s.read = 4) :
    parentLeft l s.read (.afterLength (s.written.take 4)) < parentLeft l s.read .length := by
  have hn := length_of_written h.sent.isPrefix (hr ▸ h.read_le)
  have hle := Nat.mod_le (toCbor l.reply.1).length (2 ^ 32)
  unfold Parent.afterLength
  rw [hn]
  dsimp only
  split
  · simp [parentLeft]
  · simp only [parentLeft]
    omega

theorem left_afterBody (read : Nat) (body : Bytes) :
    parentLeft l read (.afterBody body) < parentLeft l read (.body n) := by
  unfold Parent.afterBody
  split
  · simp [parentLeft]
  · split <;> simp only [parentLeft] <;> omega

theorem left_afterFailure (hp : parent.Expects n) (read : Nat) (e : String) :
    parentLeft l read (parent.afterFailure e) < parentLeft l read parent := by
  cases hp <;> simp only [Parent.afterFailure, parentLeft] <;> omega

theorem left_lt (hs : Sendable l.spec) (h : Inv l f s) (ha : a ≠ .fault) (st : Step l a s s') : left l s' < left l s := by
  cases st
  case exits hc hh =>
    obtain ⟨_, ⟨_, hc', _, _⟩ | ⟨hc', _⟩ | ⟨_, hc', _⟩⟩ := h.started hs hh <;> rw [hc'] at hc <;> cases hc
  case refuses hc hh =>
    obtain ⟨_, ⟨_, hc', _, _⟩ | ⟨hc', _⟩ | ⟨_, hc', _⟩⟩ := h.started hs hh <;> rw [hc'] at hc <;> cases hc
    refine left_helper ?_
    rw [hh, helperLeft, helperLeft]
    split <;> omega
  case spawns hc hh =>
    obtain ⟨_, ⟨_, hc', ho, hf⟩ | ⟨hc', _⟩ | ⟨_, hc', _⟩⟩ := h.started hs hh <;> rw [hc'] at hc <;> cases hc
    obtain ⟨_, _, _, rfl⟩ := stage1_ok ho
    refine left_helper ?_
    rw [hh, helperLeft, helperLeft, if_pos hf, if_neg (by simp)]
    omega
  case executes hc hh =>
    obtain ⟨_, ⟨_, hc', _, _⟩ | ⟨hc', _⟩ | ⟨_, hc', _⟩⟩ := h.started hs hh <;> rw [hc'] at hc <;> cases hc
    refine left_helper ?_
    rw [hh, helperLeft, helperLeft]
    split <;> omega
  case write hne hh _ =>
    have := List.length_pos_of_ne_nil hne
    refine Nat.add_lt_add_right ?_ _
    rw [hh, helperLeft, helperLeft, List.length_append]
    omega
  case unread hne hh _ =>
    have := List.length_pos_of_ne_nil hne
    refine left_helper ?_
    rw [hh, helperLeft, helperLeft, List.length_nil]
    omega
  case leave hh => exact left_helper (by rw [hh]; simp [helperLeft])
  case exec hh => exact left_helper (by rw [hh]; simp [helperLeft])
  case read k hn hp hk _ =>
    refine Nat.add_lt_add_left ?_ _
    dsimp only
    generalize s.parent = p at hp
    cases hp <;> simp only [parentLeft] <;> omega
  case length hp hr => exact left_parent (hp ▸ h.left_afterLength hr)
  case body hp _ => exact left_parent (hp ▸ left_afterBody _ _)
  case closed hp _ _ _ => exact left_parent (left_afterFailure hp _ _)
  case waited hp _ => exact left_parent (by rw [hp]; simp [parentLeft])
  case finish hh => exact left_helper (by rw [hh]; simp [helperLeft])
  case lose => exact absurd rfl ha
  case noExec => exact absurd rfl ha
  case kill => exact absurd rfl ha
  case unreadable => exact absurd rfl ha

end Inv

-- Something has gone wrong on the way, or the report is too long to be read.
def Failed (l : Launch) (as : List Actor) : Prop :=
  l.opening ≠ .ok () ∨ 2 ^ 20 < (toCbor l.reply.1).length ∨ .fault ∈ as

theorem Launch.opening_error {e : CellError} (h : l.opening = .error e) (r : EnforcementReport) : e ≠ .refused r := by
  unfold opening at h
  cases hf : l.isFullySealed <;> cases hp : l.pipe <;> cases hs : l.spawn <;> rw [hf, hp, hs] at h <;> cases h <;> nofun

theorem Runs.inv (hs : Sendable l.spec) (hl : (toCbor l.reply.1).length < 2 ^ 64) (h : Runs l as s) :
    Inv l (Failed l as) s := by
  induction h
  case start =>
    unfold System.start
    cases ho : l.opening
    case error e =>
      exact ⟨.ended List.nil_prefix fun hn => absurd (.inr ⟨_, rfl⟩) hn, le_rfl,
        .error (.inl (by rw [ho]; nofun)) (l.opening_error ho), fun _ _ => rfl⟩
    case ok => exact ⟨.first, le_rfl, .length (Nat.zero_le _), nofun⟩
  case step as s a s' _ st ih =>
    have hm : Failed l as → Failed l (as ++ [a]) := Or.imp_right (Or.imp_right (List.mem_append_left _))
    refine (ih.mono hm).step hs hl (fun hb => .inr (.inl hb)) (fun ha => .inr (.inr ?_)) st
    simp [ha]

-- A run without a fault makes a bounded number of steps.
theorem Runs.length_le (hs : Sendable l.spec) (hl : (toCbor l.reply.1).length < 2 ^ 64) (h : Runs l as s)
    (hf : .fault ∉ as) : as.length + Inv.left l s ≤ 2 * (toCbor l.reply.1).length + 15 := by
  induction h
  case start =>
    unfold System.start
    cases l.opening
    · simp [Inv.left, Inv.helperLeft, Inv.parentLeft]
    · simp only [Inv.left, Inv.helperLeft, Inv.parentLeft, length_message, List.head?_cons, if_pos, List.length_nil]
      omega
  case step as s a s' h st ih =>
    have ⟨hf, ha⟩ := not_or.mp (mt List.mem_append.mpr hf)
    have hlt := (h.inv hs hl).left_lt hs (fun he => ha (he ▸ List.mem_singleton_self _)) st
    have := ih hf
    rw [List.length_append, List.length_singleton]
    omega

namespace Inv

-- A report that is there whole can be read to its end.
theorem reads (h : Inv l f s) (hf : ¬ f) (hb : (toCbor l.reply.1).length ≤ 2 ^ 20) (hw : s.written = message l.reply.1)
    (hp : s.parent.Expects n) : ∃ s', Step l .launcher s s' := by
  have hl : s.written.length = 4 + (toCbor l.reply.1).length := by rw [hw, length_message]
  have hn := h.length_eq (fun h => absurd hb h.not_ge) hf (by omega)
  have hle : s.read ≤ n ∧ n ≤ s.written.length := by
    have hg := h.got
    generalize s.parent = p at hp hg
    cases hp <;> cases hg <;> omega
  by_cases hr : s.read < n
  case pos => exact ⟨_, .read n hp hr le_rfl hle.right⟩
  case neg =>
    have hr : s.read = n := by omega
    cases hs : s.parent <;> rw [hs] at hp <;> cases hp
    case length => exact ⟨_, .length hs hr⟩
    case body => exact ⟨_, .body hs hr⟩

-- While the launcher has no result, the helper or the launcher can go on.
theorem progress (hs : Sendable l.spec) (hm : .mountNs ∈ l.spec.parsedMandatory) (h : Inv l f s) (hf : ¬ f)
    (hb : (toCbor l.reply.1).length ≤ 2 ^ 20) (hp : ∀ r, s.parent ≠ .done r) :
    ∃ a s', (a = .helper ∨ a = .launcher) ∧ Step l a s s' := by
  have hlossy : ¬ (f ∨ ∃ r, s.parent = .done r) := fun hor => hor.elim hf fun ⟨r, hr⟩ => hp r hr
  have hg := h.got
  have hsent := h.sent
  have hread {n : Nat} (hw : s.written = message l.reply.1) (he : s.parent.Expects n) :
      ∃ a s', (a = .helper ∨ a = .launcher) ∧ Step l a s s' :=
    have ⟨s', st⟩ := h.reads hf hb hw he
    ⟨_, s', .inr rfl, st⟩
  cases hh : s.helper
  case started args =>
    obtain ⟨_, ⟨_, hc, _, _⟩ | ⟨hc, _⟩ | ⟨_, hc, _⟩⟩ := h.started hs hh
    · exact ⟨_, _, .inl rfl, .spawns hh hc⟩
    · exact ⟨_, _, .inl rfl, .refuses hh hc⟩
    · exact ⟨_, _, .inl rfl, .executes hh hc⟩
  case sending rest next =>
    by_cases hr : rest = []
    case pos =>
      subst hr
      cases next
      case leaves => exact ⟨_, _, .inl rfl, .leave hh⟩
      case executes => exact ⟨_, _, .inl rfl, .exec hh⟩
    case neg => exact ⟨_, _, .inl rfl, .write rest [] (by rw [hh, List.append_nil]) hr hp⟩
  case executing w =>
    rw [hh] at hsent
    cases hsent
    case executing hw _ hwhole =>
      obtain ⟨n, he⟩ | ⟨refusal, hpar⟩ := s.parent.expects_or_waiting hp
      · exact hread (hwhole hlossy) he
      · rw [hpar] at hg
        cases hg
        case lost hf' => exact absurd hf' hf
        case refused hr _ =>
          have hne := (l.reply_executes hm).mpr (l.reply_next.resolve_left (by rw [hw]; nofun))
          exact absurd hr hne
  case ended =>
    rw [hh] at hsent
    cases hsent
    case ended hwhole =>
      obtain ⟨n, he⟩ | ⟨refusal, hpar⟩ := s.parent.expects_or_waiting hp
      · exact hread (hwhole hlossy) he
      · exact ⟨_, _, .inr rfl, .waited (.ok "exit status: 126") hpar hh⟩

end Inv

-- A program in its cell: the namespaces were made, and every mandatory control is established and reported.
structure InCell (l : Launch) : Prop where
  unshared  : l.outer.unshare (Stage1.namespaces l.outer l.spec) = .ok ()
  executes  : l.cell.executes
  mandatory : ∀ c ∈ CellSpec.mandatoryControls l.spec.network,
    Stage2.Established l.inner l.spec (Stage1.nsNote l.outer l.spec) (Stage1.cgroupName l.outer) c ∧
      c.asStr ∈ l.cell.report.active

theorem InCell.of_reply {d : Decision} {argv env : List String}
    (hd : CellSpec.fromDecision d argv env = .ok l.spec) (h : l.reply.1.status ≠ .refused) :
    l.reply.1 = l.cell.report ∧ InCell l := by
  have hr : l.reply.1 = l.cell.report ∧ ∃ args, stage1 l.outer l.spec (encodeSpec l.spec) = .ok args := by
    revert h
    unfold Launch.reply
    cases ho : stage1 l.outer l.spec (encodeSpec l.spec)
    case error r => exact fun h => absurd (Refusing.stage1 _ _ _ r ho) h
    case ok args => exact fun _ => ⟨rfl, args, rfl⟩
  obtain ⟨hr, args, ho⟩ := hr
  rw [hr] at h
  obtain ⟨b, _, hb, hc, _⟩ :=
    Stage2.stage2_clean l.inner l.spec (Stage1.nsNote l.outer l.spec) (Stage1.cgroupName l.outer)
  have hb : l.cell.report = b.finish l.inner.kernel := hb
  refine ⟨hr, (stage1_ok ho).right.left, (Stage2.executes_iff (mountNs_mandatory hd)).mpr h, fun c hm => ?_⟩
  rw [← CellSpec.parsedMandatory_fromDecision hd] at hm
  rw [hb] at h ⊢
  exact hc.mandatory h hm

-- The result of a launch that nothing disturbs.
def Launch.outcome (l : Launch) : Except CellError EnforcementReport :=
  if l.reply.1.status = .refused then .error (.refused l.reply.1) else .ok l.reply.1

-- Whatever fails on the way, in any order of steps: a program only ever runs in the cell of its decision, a report that
-- is handed out is the one of that cell, and after a refusal nothing runs, neither then nor later.
theorem launch_agrees {d : Decision} {argv env : List String} (hd : CellSpec.fromDecision d argv env = .ok l.spec)
    (hs : Sendable l.spec) (hl : (toCbor l.reply.1).length < 2 ^ 64) (h : Runs l as s) :
    (∀ w, s.helper = .executing w → w = workload l.exe.file l.spec ∧ InCell l) ∧
    (∀ r, s.parent = .done (.ok r) → r = l.cell.report ∧ InCell l ∧
      (s.helper = .ended ∨ s.helper = .executing (workload l.exe.file l.spec) ∨
        s.helper = .sending [] (.executes (workload l.exe.file l.spec)))) ∧
    (∀ r, s.parent = .done (.error (.refused r)) → r = l.reply.1 ∧ s.helper = .ended ∧
      ∀ as' s', Runs l as' s' → ∀ w, s'.helper ≠ .executing w) := by
  have hm := mountNs_mandatory hd
  have hexec {as' : List Actor} {s' : System} {w : Workload} (h : Runs l as' s') (hw : s'.helper = .executing w) :
      l.reply.2 = .executes w ∧ l.reply.1.status ≠ .refused := by
    have hsent := (h.inv hs hl).sent
    rw [hw] at hsent
    cases hsent
    case executing hn _ _ =>
      exact ⟨hn, (l.reply_executes hm).mpr (l.reply_next.resolve_left (by rw [hn]; nofun))⟩
  have hi := h.inv hs hl
  refine ⟨fun w hw => ?_, fun r hr => ?_, fun r hr => ?_⟩
  · obtain ⟨hn, hst⟩ := hexec h hw
    have he := (l.reply_executes hm).mp hst
    exact ⟨Next.executes.inj (hn.symm.trans he), (InCell.of_reply hd hst).right⟩
  · have hg := hi.got
    rw [hr] at hg
    cases hg
    case ok hst hw =>
      obtain ⟨hrep, hc⟩ := InCell.of_reply hd hst
      refine ⟨hrep, hc, ?_⟩
      have he := (l.reply_executes hm).mp hst
      obtain hh | ⟨w, hh, hn⟩ | hh := hi.sent.whole hw
      · exact .inl hh
      · rw [he] at hn
        exact .inr (.inl (hh.trans (congrArg _ (Next.executes.inj hn).symm)))
      · exact .inr (.inr (he ▸ hh))
  · have hg := hi.got
    rw [hr] at hg
    cases hg
    case refusal hst => exact ⟨rfl, hi.ended _ hr, fun as' s' h' w hw => absurd hst (hexec h' hw).right⟩
    case error hne => exact absurd rfl (hne r)

-- Without a fault the launcher has the result of the cell after a bounded number of steps, in whatever order they are
-- made, and it does not wait for the program to end.
theorem launch_returns {d : Decision} {argv env : List String} (hd : CellSpec.fromDecision d argv env = .ok l.spec)
    (hs : Sendable l.spec) (hb : (toCbor l.reply.1).length ≤ 2 ^ 20) (ho : l.opening = .ok ()) (h : Runs l as s)
    (hf : .fault ∉ as) :
    as.length ≤ 2 * (toCbor l.reply.1).length + 15 ∧
    (∀ result, s.parent = .done result → result = l.outcome) ∧
    ((∀ result, s.parent ≠ .done result) → ∃ a s', (a = .helper ∨ a = .launcher) ∧ Step l a s s') := by
  have hl : (toCbor l.reply.1).length < 2 ^ 64 := by omega
  have hi := h.inv hs hl
  have hn : ¬ Failed l as := by
    rintro (hne | hlt | hmem)
    · exact hne ho
    · omega
    · exact hf hmem
  refine ⟨?_, fun result hr => ?_, hi.progress hs (mountNs_mandatory hd) hn hb⟩
  · have := h.length_le hs hl hf
    omega
  · have hg := hi.got
    rw [hr] at hg
    cases hg
    case ok hst _ => exact (if_neg hst).symm
    case refusal hst => exact (if_pos hst).symm
    case error hf _ => exact absurd hf hn

end Invariant

-- A program that is started as it should be, up to its first instruction.
namespace Started

local instance : Crypto where
  sha256 _           := Bytes.fixed 32 0
  publicKey seed     := seed
  isPoint _          := true
  sign _ _           := Bytes.fixed 64 0
  verifyStrict _ _ _ := false

def launch : Launch where
  exe           := { file := .empty, digest := Digest.of [], size := 0, hashes := rfl }
  spec          := Confined.spec
  isFullySealed := true
  pipe          := .ok ()
  spawn         := .ok ()
  outer         := {
    kernel      := "6.1.0"
    landlockAbi := some 4
    setsid      := .ok ()
    euid        := 1000
    egid        := 1000
    unshare _   := .ok ()
    write _ _   := .ok ()
    pid         := 1
    currentExe  := .ok ()
    spawn       := .ok ()
  }
  inner         := Confined.io (.ok ())

theorem sizes : (toCbor launch.spec).length < 2 ^ 64 ∧ (toCbor launch.cell.report).length ≤ 2 ^ 20 ∧
    launch.cell.executes := by
  decide +kernel

theorem sendable : Sendable launch.spec :=
  ⟨fun _ h => absurd h List.not_mem_nil, sizes.1⟩

theorem reply_eq : launch.reply = (launch.cell.report, .executes (workload launch.exe.file launch.spec)) :=
  congrArg (Prod.mk _) (if_pos sizes.2.2)

-- The program is running, and nothing of the report was read yet.
def running : System :=
  ⟨.executing (workload launch.exe.file launch.spec), message launch.cell.report, 0, .length⟩

theorem runs : Runs launch [.helper, .helper, .helper, .helper] running := by
  have hc := launch.second_executes sizes.2.2
  have hm : message launch.cell.report ≠ [] := by simp [message, Bytes.ofNat]
  have h₁ : Runs launch [.helper] _ := .step .start (.spawns rfl sendable.cellMain_first)
  have h₂ : Runs launch [.helper, .helper] _ := h₁.step (.executes rfl ((sendable.cellMain_second _ _).trans hc))
  have h₃ : Runs launch [.helper, .helper, .helper] _ :=
    h₂.step (.write (message launch.cell.report) [] (by rw [List.append_nil]) hm fun _ h => by cases h)
  exact h₃.step (.exec rfl)

theorem launch_agrees_started : Runs launch [.helper, .helper, .helper, .helper] running ∧ InCell launch :=
  have hl : (toCbor launch.reply.1).length < 2 ^ 64 := reply_eq ▸ Nat.lt_of_le_of_lt sizes.2.1 (by decide)
  ⟨runs, ((launch_agrees Confined.fromDecision_decision sendable hl runs).left _ rfl).right⟩

theorem launch_returns_started : Runs launch [.helper, .helper, .helper, .helper] running ∧
    ∃ a s', (a = .helper ∨ a = .launcher) ∧ Step launch a running s' :=
  have hb : (toCbor launch.reply.1).length ≤ 2 ^ 20 := reply_eq ▸ sizes.2.1
  ⟨runs, (launch_returns Confined.fromDecision_decision sendable hb rfl runs (by decide)).right.right nofun⟩

end Started

end Cell
