import JlrModel.Cbor.Theorems.Record
import JlrModel.Model.Capability

namespace Capability

variable {p q s name arg host kind : String} {c c' : Capability}

theorem validatePath_eq (h : validatePath p = .ok q) : q = p := by
  unfold validatePath at h
  split_ifs at h
  exact (Except.ok.inj h).symm

theorem validateToken_eq (h : validateToken kind p = .ok q) : q = p := by
  unfold validateToken at h
  split_ifs at h
  exact (Except.ok.inj h).symm

-- The arguments pass their own checks.
def Canonical : Capability → Prop
  | fsRead p | fsWrite p             => validatePath p = .ok p
  | netConnect h _ | netListen h _   => validateToken "host" h = .ok h
  | devUsb c                         => validateToken "usb class" c = .ok c
  | procSpawn e                      => validateToken "epn" e = .ok e
  | ipcDbus n                        => validateToken "bus name" n = .ok n
  | hostServiceControl s             => validateToken "service" s = .ok s
  | devAudio | devGpu | kernelModuleLoad | rawNetwork | rawBlockWrite => True

theorem splitHostport_canonical {port : UInt16} (h : splitHostport name s = .ok (host, port)) :
    validateToken "host" host = .ok host := by
  simp only [splitHostport, Except.bind_eq_ok, Except.pure_eq_ok, Prod.mk.injEq] at h
  obtain ⟨_, _, _, _, host', hv, rfl, _⟩ := h
  cases validateToken_eq hv
  exact hv

theorem parseNamed_canonical {arg : Option String} (h : parseNamed name arg = .ok c) : c.Canonical := by
  unfold parseNamed at h
  split at h <;> simp only [Except.bind_eq_ok, Except.pure_eq_ok, Except.throw_ne_ok] at h
  case h_1 | h_2 =>
    obtain ⟨_, _, _, hv, rfl⟩ := h
    cases validatePath_eq hv
    exact hv
  case h_3 | h_4 =>
    obtain ⟨_, _, _, hv, rfl⟩ := h
    exact splitHostport_canonical hv
  case h_7 | h_8 | h_9 | h_10 =>
    obtain ⟨_, _, _, hv, rfl⟩ := h
    cases validateToken_eq hv
    exact hv
  all_goals
    obtain ⟨_, _, rfl⟩ := h
    trivial

theorem parse_canonical (h : parse s = .ok c) : c.Canonical := by
  unfold parse at h
  split at h <;> exact parseNamed_canonical h

-- The word with which a capability starts.
def keyword : Capability → String
  | fsRead _             => "FS_READ"
  | fsWrite _            => "FS_WRITE"
  | netConnect _ _       => "NET_CONNECT"
  | netListen _ _        => "NET_LISTEN"
  | devAudio             => "DEV_AUDIO"
  | devGpu               => "DEV_GPU"
  | devUsb _             => "DEV_USB"
  | procSpawn _          => "PROC_SPAWN"
  | ipcDbus _            => "IPC_DBUS"
  | hostServiceControl _ => "HOST_SERVICE_CONTROL"
  | kernelModuleLoad     => "KERNEL_MODULE_LOAD"
  | rawNetwork           => "RAW_NETWORK"
  | rawBlockWrite        => "RAW_BLOCK_WRITE"

def operand : Capability → Option String
  | fsRead s | fsWrite s | devUsb s | procSpawn s | ipcDbus s | hostServiceControl s => some s
  | netConnect h p | netListen h p => some (h ++ ":" ++ toString p.toNat)
  | devAudio | devGpu | kernelModuleLoad | rawNetwork | rawBlockWrite => .none

theorem display_eq : c.display = c.operand.elim c.keyword (c.keyword ++ ":" ++ ·) := by
  cases c <;> rfl

theorem splitOnce_display : Text.splitOnce ':' c.display = c.operand.map (c.keyword, ·) := by
  have hn : ':' ∉ c.keyword.toList := by cases c <;> simp [keyword]
  rw [display_eq]
  cases c.operand
  case none => exact Text.splitOnce_eq_none_iff.mpr hn
  case some a => exact Text.splitOnce_eq_some_iff.mpr ⟨by simp, hn⟩

theorem parse_eq : parse c.display = parseNamed c.keyword c.operand := by
  rw [parse, splitOnce_display, display_eq]
  cases c.operand <;> rfl

theorem splitHostport_append {port : UInt16} (h : validateToken "host" host = .ok host) :
    splitHostport name (host ++ ":" ++ port.toNat.repr) = .ok (host, port) := by
  have hs : Text.rsplitOnce ':' (host ++ ":" ++ port.toNat.repr) = some (host, port.toNat.repr) :=
    Text.rsplitOnce_eq_some_iff.mpr ⟨by simp, Text.not_mem_toString rfl⟩
  have hp := Text.parseUint_toString port.toNat_lt
  refine Except.bind_eq_ok.mpr ⟨_, Except.okOr_eq_ok.mpr hs, ?_⟩
  refine Except.bind_eq_ok.mpr ⟨_, Except.okOr_eq_ok.mpr hp, ?_⟩
  exact Except.bind_eq_ok.mpr ⟨_, h, by simp⟩

-- What is displayed for a capability that passed the checks is parsed to that capability.
theorem parse_display (h : c.Canonical) : parse c.display = .ok c := by
  rw [parse_eq]
  cases c <;> simp only [Canonical] at h
  case netConnect | netListen =>
    simp [parseNamed, keyword, operand, need, Except.okOr, splitHostport_append h, bind, Except.bind, pure, Except.pure]
  case devAudio | devGpu | kernelModuleLoad | rawNetwork | rawBlockWrite =>
    simp [parseNamed, keyword, operand, none, bind, Except.bind, pure, Except.pure]
  all_goals simp [parseNamed, keyword, operand, need, Except.okOr, h, bind, Except.bind, pure, Except.pure]

-- An absolute path without empty parts and without `.` and `..`.
structure NormalPath (p : String) : Prop where
  absolute : p.toList.head? = some '/'
  noNul    : '\x00' ∉ p.toList
  parts    : p = "/" ∨ ∀ part ∈ (Text.split '/' p).tail, part ≠ "" ∧ part ≠ "." ∧ part ≠ ".."
  trailing : p.toList.getLast? = some '/' → p = "/"

theorem validatePath_normal (h : validatePath p = .ok p) : NormalPath p := by
  unfold validatePath at h
  split_ifs at h with ha hn hc
  have ⟨hh, h0⟩ := not_or.mp ha
  have ⟨hd, hl⟩ := not_or.mp hc
  have hlast (h : p.toList.getLast? = some '/') : p = "/" := by
    have hl : ¬ 1 < Text.len p := fun hl' => hl ⟨hl', h⟩
    have ⟨ys, hy⟩ := List.head?_eq_some_iff.mp (not_not.mp hh)
    have hp : p = .ofList ('/' :: ys) := by rw [← hy, String.ofList_toList]
    rw [hp, Text.len_ofList_cons] at hl
    cases ys
    case nil => exact hp
    case cons y ys =>
      have hy := y.utf8Size_pos
      rw [Text.len_ofList_cons] at hl
      exact absurd (show 1 < ('/' : Char).utf8Size + (y.utf8Size + Text.len (.ofList ys)) from by
        have : ('/' : Char).utf8Size = 1 := rfl
        omega) hl
  refine ⟨not_not.mp hh, h0, ?_, hlast⟩
  refine or_iff_not_imp_left.mpr fun hp part hm => ⟨?_, ?_⟩
  · rintro rfl
    rw [Text.split, ← List.map_tail] at hm
    have ⟨part, hm, he⟩ := List.mem_map.mp hm
    cases (String.ofList_eq_empty_iff.mp he)
    exact (Text.doubled_of_splitOn hm).elim hd fun h => hp (hlast h)
  · have hm := List.mem_of_mem_tail hm
    have hn := fun h => hn (List.any_eq_true.mpr ⟨part, hm, decide_eq_true h⟩)
    exact not_or.mp hn

-- The port is behind the last colon.
def hostport (s : String) : Option (String × UInt16) := do
  let (host, port) ← Text.rsplitOnce ':' s
  return (host, .ofNat (← Text.parseUint (2 ^ 16) port))

theorem hostport_eq {host : String} {port : UInt16} :
    hostport (host ++ ":" ++ port.toNat.repr) = some (host, port) := by
  have hs : Text.rsplitOnce ':' (host ++ ":" ++ port.toNat.repr) = some (host, port.toNat.repr) :=
    Text.rsplitOnce_eq_some_iff.mpr ⟨by simp, Text.not_mem_toString rfl⟩
  have hp : Text.parseUint (2 ^ 16) port.toNat.repr = some port.toNat := Text.parseUint_toString port.toNat_lt
  rw [hostport, hs, Option.bind_eq_bind, Option.bind_some]
  dsimp only
  rw [hp, Option.bind_eq_bind, Option.bind_some, UInt16.ofNat_toNat]
  rfl

-- The capability with a keyword and an operand, whether or not the operand passes the checks.
def ofKeyword : String → Option String → Option Capability
  | "FS_READ", some p              => some (.fsRead p)
  | "FS_WRITE", some p             => some (.fsWrite p)
  | "NET_CONNECT", some a          => (hostport a).map fun (h, p) => .netConnect h p
  | "NET_LISTEN", some a           => (hostport a).map fun (h, p) => .netListen h p
  | "DEV_AUDIO", .none             => some .devAudio
  | "DEV_GPU", .none               => some .devGpu
  | "DEV_USB", some s              => some (.devUsb s)
  | "PROC_SPAWN", some s           => some (.procSpawn s)
  | "IPC_DBUS", some s             => some (.ipcDbus s)
  | "HOST_SERVICE_CONTROL", some s => some (.hostServiceControl s)
  | "KERNEL_MODULE_LOAD", .none    => some .kernelModuleLoad
  | "RAW_NETWORK", .none           => some .rawNetwork
  | "RAW_BLOCK_WRITE", .none       => some .rawBlockWrite
  | _, _                           => .none

theorem ofKeyword_keyword : ofKeyword c.keyword c.operand = some c := by
  cases c <;> simp [ofKeyword, keyword, operand, hostport_eq]

theorem eq_of_keyword (hk : c.keyword = c'.keyword) (ha : c.operand = c'.operand) : c = c' := by
  have h : ofKeyword c.keyword c.operand = some c' := by rw [hk, ha, ofKeyword_keyword]
  exact Option.some.inj (ofKeyword_keyword.symm.trans h)

-- Whether or not its arguments pass the checks, a capability is known from its text.
theorem display_inj (h : c.display = c'.display) : c = c' := by
  have hs : c.operand.map (c.keyword, ·) = c'.operand.map (c'.keyword, ·) := by
    rw [← splitOnce_display, ← splitOnce_display, h]
  rw [display_eq, display_eq] at h
  cases ha : c.operand
  case none =>
    cases ha' : c'.operand
    case none => exact eq_of_keyword (by simpa [ha, ha'] using h) (ha.trans ha'.symm)
    case some => simp [ha, ha'] at hs
  case some =>
    cases ha' : c'.operand
    case none => simp [ha, ha'] at hs
    case some =>
      simp only [ha, ha', Option.map_some, Option.some.injEq, Prod.mk.injEq] at hs
      exact eq_of_keyword hs.left (by rw [ha, ha', hs.right])

-- What a capability is written as is parsed to the same capability, belongs to no other one, and names a normal path.
theorem text_canonical :
    (∀ s c, parse s = .ok c → parse c.display = .ok c ∧ ∀ p, c = .fsRead p ∨ c = .fsWrite p → NormalPath p) ∧
    ∀ c c' : Capability, c.display = c'.display → c = c' := by
  refine ⟨fun s c h => ?_, fun _ _ => display_inj⟩
  have hc := parse_canonical h
  refine ⟨parse_display hc, ?_⟩
  rintro p (rfl | rfl)
  · exact validatePath_normal hc
  · exact validatePath_normal hc

end Capability
