import Mathlib.Data.List.Nodup
import JlrModel.Gate.Mounts

-- Which mounts are read from the table of the kernel.

namespace Gate

variable {b : UInt8} {bs f g rest post : Bytes} {fs : List Bytes} {m : Mount}

theorem unescape_cons (h : b ≠ 0x5c) : unescapeMountinfo (b :: rest) = b :: unescapeMountinfo rest := by
  rw [unescapeMountinfo]
  exact fun _ _ _ _ hb => absurd hb h

-- The escape of a byte is read as this byte.
theorem unescape_escaped (h : b ∈ [0x20, 0x09, 0x0a, 0x5c]) :
    unescapeMountinfo ([0x5c, 0x30 + b / 64, 0x30 + b / 8 % 8, 0x30 + b % 8] ++ rest) = b :: unescapeMountinfo rest := by
  simp only [List.mem_cons, List.not_mem_nil, or_false] at h
  obtain rfl | rfl | rfl | rfl := h <;> rfl

theorem unescape_escape : unescapeMountinfo (escapeMountinfo bs) = bs := by
  induction bs
  case nil => rfl
  case cons b bs ih =>
    rw [escapeMountinfo, List.flatMap_cons, ← escapeMountinfo]
    split
    case isTrue h => rw [unescape_escaped h, ih]
    case isFalse h =>
      have hb : b ≠ 0x5c := by
        rintro rfl
        exact h (by decide)
      rw [List.singleton_append, unescape_cons hb, ih]

-- The bytes that separate fields and lines are not in what was escaped.
theorem mem_escape (h : b ∈ escapeMountinfo bs) : b ≠ 0x20 ∧ b ≠ 0x0a := by
  have hs : ([0x20, 0x09, 0x0a, 0x5c] : Bytes).all fun x =>
      [0x5c, 0x30 + x / 64, 0x30 + x / 8 % 8, 0x30 + x % 8].all fun b => b ≠ 0x20 ∧ b ≠ 0x0a := by decide
  have ⟨x, _, h⟩ := List.mem_flatMap.mp h
  split at h
  case isTrue hx => exact of_decide_eq_true (List.all_eq_true.mp (List.all_eq_true.mp hs x hx) b h)
  case isFalse hx =>
    cases List.mem_singleton.mp h
    constructor
    · rintro rfl
      exact hx (by decide)
    · rintro rfl
      exact hx (by decide)

theorem mem_decimal {n : Nat} (h : b ∈ decimal n) : b ≠ 0x20 ∧ b ≠ 0x0a ∧ b ≠ 0x2d := by
  have ⟨c, hc, hb⟩ := List.mem_map.mp h
  have ⟨hl, hu⟩ := Text.bounds_of_isDigit (Nat.isDigit_of_mem_toDigits (by decide) (by decide) hc)
  have hn : b.toNat = c.toNat := by
    rw [← hb]
    exact UInt8.toNat_ofNat_of_lt' (show c.toNat < 256 by omega)
  refine ⟨?_, ?_, ?_⟩ <;>
  · rintro rfl
    simp at hn
    omega

theorem cut_cons (h : b ≠ 0x20) : cutSeparator (b :: rest) = (cutSeparator rest).map fun (p, q) => (b :: p, q) := by
  rw [cutSeparator]
  exact fun _ hb => absurd hb h

theorem cut_field (h : 0x20 ∉ f) : cutSeparator (f ++ rest) = (cutSeparator rest).map fun (p, q) => (f ++ p, q) := by
  induction f
  case nil => simp
  case cons b f ih =>
    have ⟨hb, hf⟩ := not_or.mp (List.mem_cons.not.mp h)
    rw [List.cons_append, cut_cons (Ne.symm hb), ih hf, Option.map_map]
    rfl

-- A space before a field that is not a dash is not the separator.
theorem cut_space (h : 0x20 ∉ g) (hd : g ≠ [0x2d]) :
    cutSeparator (0x20 :: (g ++ 0x20 :: rest)) = (cutSeparator (g ++ 0x20 :: rest)).map fun (p, q) => (0x20 :: p, q) := by
  rw [cutSeparator]
  intro post _ he
  match g with
  | []          => exact absurd (List.cons.inj he).left (by decide)
  | [x]         => exact hd (congrArg (fun y => [y]) (List.cons.inj he).left)
  | x :: y :: g =>
    have hy : y = 0x20 := (List.cons.inj (List.cons.inj he).right).left
    exact h (by simp [hy])

theorem cut_spaced (hn : fs ≠ []) (hs : ∀ f ∈ fs, 0x20 ∉ f ∧ f ≠ [0x2d]) :
    cutSeparator ([0x20].intercalate fs ++ 0x20 :: 0x2d :: 0x20 :: post) = some ([0x20].intercalate fs, post) := by
  induction fs
  case nil => exact absurd rfl hn
  case cons f fs ih =>
    have ⟨hf, _⟩ := hs f List.mem_cons_self
    match fs with
    | []      =>
      rw [List.intercalate_singleton, cut_field hf, cutSeparator]
      exact congrArg (fun p => some (p, post)) (List.append_nil f)
    | g :: fs =>
      have ⟨hg, hd⟩ := hs g (List.mem_cons_of_mem _ List.mem_cons_self)
      have ih := ih (List.cons_ne_nil g fs) fun f hf => hs f (List.mem_cons_of_mem _ hf)
      -- The next field ends with a space, be it that before another field or that of the separator.
      have ⟨rest, hr⟩ : ∃ rest, [0x20].intercalate (g :: fs) ++ 0x20 :: 0x2d :: 0x20 :: post = g ++ 0x20 :: rest := by
        cases fs
        case nil => exact ⟨_, by rw [List.intercalate_singleton]⟩
        case cons => exact ⟨_, by rw [List.intercalate_cons_cons, List.append_assoc, List.append_assoc]; rfl⟩
      rw [List.intercalate_cons_cons, List.append_assoc, List.append_assoc, cut_field hf, List.singleton_append, hr,
        cut_space hg hd, ← hr, ih]
      exact congrArg (fun p => some (p, post)) (List.append_cons ..)

namespace Mount

-- The fields before the separator, if the two names are not a dash.
theorem mem_head (hr : m.root ≠ [0x2d]) (hp : m.mountPoint ≠ [0x2d]) (h : f ∈ m.head) : 0x20 ∉ f ∧ f ≠ [0x2d] := by
  have hd (n : Nat) : 0x20 ∉ decimal n ∧ decimal n ≠ [0x2d] :=
    ⟨fun h => (mem_decimal h).left rfl, fun h => (mem_decimal (h ▸ List.mem_singleton_self _)).right.right rfl⟩
  have he {bs : Bytes} (h : bs ≠ [0x2d]) : 0x20 ∉ escapeMountinfo bs ∧ escapeMountinfo bs ≠ [0x2d] :=
    ⟨fun h => (mem_escape h).left rfl, fun hd => h (by rw [← @unescape_escape bs, hd]; rfl)⟩
  have hf (f : MountField) : 0x20 ∉ f.bytes ∧ f.bytes ≠ [0x2d] := ⟨f.noSpace, f.ne_dash⟩
  simp only [head, List.cons_append, List.nil_append, List.mem_cons, List.mem_map] at h
  rcases h with rfl | rfl | rfl | rfl | rfl | rfl | ⟨f, _, rfl⟩
  · exact hd _
  · exact hd _
  · constructor
    · simpa using ⟨(hd m.major).left, (hd m.minor).left⟩
    · intro h
      have hm : 0x3a ∈ decimal m.major ++ 0x3a :: decimal m.minor := List.mem_append_right _ List.mem_cons_self
      exact absurd (h ▸ hm) (by decide)
  · exact he hr
  · exact he hp
  · exact hf _
  · exact hf _

theorem newline_not_mem_intercalate {fs : List Bytes} (h : ∀ f ∈ fs, 0x0a ∉ f) : 0x0a ∉ [0x20].intercalate fs := by
  induction fs
  case nil => exact List.not_mem_nil
  case cons f fs ih =>
    have hf := h f List.mem_cons_self
    have ih := ih fun f hf => h f (List.mem_cons_of_mem _ hf)
    cases fs
    case nil => simpa using hf
    case cons g fs =>
      rw [List.intercalate_cons_cons, List.mem_append, List.mem_append]
      exact not_or.mpr ⟨not_or.mpr ⟨hf, by decide⟩, ih⟩

theorem newline_not_mem_line : 0x0a ∉ m.line := by
  have hd (n : Nat) : 0x0a ∉ decimal n := fun h => (mem_decimal h).right.left rfl
  have he {bs : Bytes} : 0x0a ∉ escapeMountinfo bs := fun h => (mem_escape h).right rfl
  have hh : ∀ f ∈ m.head, 0x0a ∉ f := by
    simp only [head, List.cons_append, List.nil_append, List.mem_cons, List.mem_map]
    rintro f (rfl | rfl | rfl | rfl | rfl | rfl | ⟨f, _, rfl⟩)
    · exact hd _
    · exact hd _
    · simpa using ⟨hd m.major, hd m.minor⟩
    · exact he
    · exact he
    · exact m.options.noNewline
    · exact f.noNewline
  have ht : ∀ f ∈ [escapeMountinfo m.fsType, escapeMountinfo m.source, m.superOptions.val], 0x0a ∉ f := by
    simp only [List.mem_cons, List.not_mem_nil, or_false]
    rintro f (rfl | rfl | rfl)
    · exact he
    · exact he
    · exact m.superOptions.property
  rw [line, List.mem_append, List.mem_append]
  exact not_or.mpr ⟨not_or.mpr ⟨newline_not_mem_intercalate hh, by decide⟩, newline_not_mem_intercalate ht⟩

theorem parseMount_line (hr : m.root ≠ [0x2d]) (hp : m.mountPoint ≠ [0x2d]) :
    parseMount m.line = some (m.mountPoint, Utf8.fromLossy (escapeMountinfo m.fsType)) := by
  have hs := fun f hf => mem_head hr hp (f := f) hf
  have hc : cutSeparator m.line = some ([0x20].intercalate m.head,
      [0x20].intercalate [escapeMountinfo m.fsType, escapeMountinfo m.source, m.superOptions.val]) := by
    rw [line, List.append_assoc]
    exact cut_spaced (List.cons_ne_nil _ _) hs
  have hf : ([0x20].intercalate m.head).splitOn 0x20 = m.head :=
    List.splitOn_intercalate 0x20 (fun f hf => (hs f hf).left) (List.cons_ne_nil _ _)
  have ht : (([0x20].intercalate [escapeMountinfo m.fsType, escapeMountinfo m.source, m.superOptions.val]).splitOn
      0x20).headD [] = escapeMountinfo m.fsType := by
    rw [List.intercalate_cons_cons, List.append_assoc, List.singleton_append,
      List.splitOn_append_cons_self_of_not_mem fun h => (mem_escape h).left rfl]
    rfl
  simp only [parseMount, hc, Option.bind_eq_bind, Option.bind_some, hf, ht]
  exact congrArg (fun p => some (p, _)) unescape_escape

end Mount

theorem splitOn_mountinfo (mounts : List Mount) : (mountinfo mounts).splitOn 0x0a = mounts.map Mount.line ++ [[]] := by
  have hi : mountinfo mounts = [0x0a].intercalate (mounts.map Mount.line ++ [[]]) := by
    induction mounts
    case nil => rfl
    case cons m mounts ih =>
      rw [mountinfo, List.flatMap_cons, ← mountinfo, ih, List.map_cons, List.cons_append]
      cases mounts <;> simp [List.intercalate_cons_cons]
  rw [hi]
  refine List.splitOn_intercalate 0x0a (fun l hl => ?_) (List.append_ne_nil_of_right_ne_nil _ (List.cons_ne_nil _ _))
  cases List.mem_append.mp hl
  case inl hl =>
    have ⟨m, _, hl⟩ := List.mem_map.mp hl
    exact hl ▸ Mount.newline_not_mem_line
  case inr hl => exact List.mem_singleton.mp hl ▸ nofun

-- A text without these characters is written as it is.
theorem escape_text {cs : List Char} (h : ∀ c ∈ cs, c ∉ [' ', '\t', '\n', '\\']) :
    escapeMountinfo (cs.flatMap String.utf8EncodeChar) = cs.flatMap String.utf8EncodeChar := by
  have hs : ([0x20, 0x09, 0x0a, 0x5c] : Bytes).all fun b =>
      b.toNat < 128 ∧ Char.ofNat b.toNat ∈ [' ', '\t', '\n', '\\'] := by decide
  have hb : ∀ b ∈ cs.flatMap String.utf8EncodeChar, b ∉ [0x20, 0x09, 0x0a, 0x5c] := by
    intro b hb he
    have ⟨c, hc, hb⟩ := List.mem_flatMap.mp hb
    have ⟨hl, he⟩ := of_decide_eq_true (List.all_eq_true.mp hs b he)
    rw [← Utf8.toNat_of_mem_encode hb hl, Char.ofNat_toNat] at he
    exact h c hc he
  rw [escapeMountinfo, List.flatMap_congr fun b h => if_neg (hb b h), List.flatMap_singleton']

theorem parseMountinfo_mountinfo {mounts : List Mount} (h : ∀ m ∈ mounts, m.root ≠ [0x2d] ∧ m.mountPoint ≠ [0x2d]) :
    parseMountinfo (mountinfo mounts) =
      mounts.map fun m => (m.mountPoint, Utf8.fromLossy (escapeMountinfo m.fsType)) := by
  have hn : parseMount [] = none := rfl
  have hm : mounts.filterMap (parseMount ∘ Mount.line) =
      mounts.filterMap (some ∘ fun m => (m.mountPoint, Utf8.fromLossy (escapeMountinfo m.fsType))) :=
    List.filterMap_congr fun m hm => Mount.parseMount_line (h m hm).left (h m hm).right
  rw [parseMountinfo, splitOn_mountinfo, List.filterMap_append, List.filterMap_map, hm, List.filterMap_eq_map,
    List.filterMap_cons_none hn, List.filterMap_nil, List.append_nil]

-- Every mount is read from the table, with its mount point and the type as it is shown there. The type of a text
-- without characters that are escaped is this text.
theorem mounts_recovered (mounts : List Mount) (h : ∀ m ∈ mounts, m.root ≠ [0x2d] ∧ m.mountPoint ≠ [0x2d]) :
    parseMountinfo (mountinfo mounts) =
      mounts.map (fun m => (m.mountPoint, Utf8.fromLossy (escapeMountinfo m.fsType))) ∧
    (∀ bs, unescapeMountinfo (escapeMountinfo bs) = bs) ∧
    ∀ cs : List Char, (∀ c ∈ cs, c ∉ [' ', '\t', '\n', '\\']) →
      Utf8.fromLossy (escapeMountinfo (cs.flatMap String.utf8EncodeChar)) = .ofList cs := by
  refine ⟨parseMountinfo_mountinfo h, fun _ => unescape_escape, fun cs hc => ?_⟩
  rw [escape_text hc, Utf8.fromLossy_encode]

namespace Mounted

def options : MountField where
  bytes     := [0x72, 0x77]
  noSpace   := by decide
  noNewline := by decide
  ne_dash   := by decide

-- A file system at the given mount point, with the options `rw`.
def mount (mountPoint fsType : Bytes) : Mount where
  id           := 36
  parent       := 1
  major        := 8
  minor        := 2
  root         := [0x2f]
  mountPoint   := mountPoint
  options      := options
  optional     := []
  fsType       := fsType
  source       := [0x61]
  superOptions := ⟨options.bytes, options.noNewline⟩

-- The mount point is `/a b`, the type is `xfs`.
theorem mounts_recovered_spaced :
    parseMountinfo (mountinfo [mount [0x2f, 0x61, 0x20, 0x62] [0x78, 0x66, 0x73]]) =
      [([0x2f, 0x61, 0x20, 0x62], "xfs")] :=
  (mounts_recovered [mount [0x2f, 0x61, 0x20, 0x62] [0x78, 0x66, 0x73]] (by decide)).left.trans (by decide)

-- A mount at a dash is not read, and the space in the type `f g` is read as it is shown.
theorem mounts_missed :
    parseMountinfo (mountinfo [mount [0x2d] [0x78, 0x66, 0x73]]) = [] ∧
    parseMountinfo (mountinfo [mount [0x2f] [0x66, 0x20, 0x67]]) = [([0x2f], "f\\040g")] := by
  decide

end Mounted

variable {device : Bytes → Option UInt64} {seen mounts : List (Bytes × String)} {mount : Bytes × String}
  {marks : List UInt64 × List Bytes}

-- What holds of the marks after some mounts.
structure Marked (device : Bytes → Option UInt64) (seen : List (Bytes × String)) (marks : List UInt64 × List Bytes) :
    Prop where
  devices : marks.2.map device = marks.1.reverse.map some
  nodup   : marks.1.Nodup
  covers  : ∀ mount ∈ seen, mount.2 ∉ PSEUDO_FS → ∀ dev, device mount.1 = some dev → dev ∈ marks.1

namespace Marked

theorem addMark (h : Marked device seen marks) : Marked device (seen ++ [mount]) (addMark device marks mount) := by
  -- The mount is covered if a device of it is among the marks.
  have keep (hc : mount.2 ∉ PSEUDO_FS → ∀ dev, device mount.1 = some dev → dev ∈ marks.1) :
      Marked device (seen ++ [mount]) marks := by
    refine { h with covers := fun m hm => ?_ }
    cases List.mem_append.mp hm
    case inl hm => exact h.covers m hm
    case inr hm => exact List.mem_singleton.mp hm ▸ hc
  rw [Gate.addMark]
  split
  case isTrue hp => exact keep fun hn => absurd hp hn
  case isFalse hp =>
    split
    case h_1 hd => exact keep fun _ dev h => nomatch hd.symm.trans h
    case h_2 dev hd =>
      split
      case isTrue hm => exact keep fun _ dev' h => Option.some.inj (hd.symm.trans h) ▸ hm
      case isFalse hm =>
        refine ⟨?_, List.nodup_cons.mpr ⟨hm, h.nodup⟩, fun m hs hp dev' h' => ?_⟩
        · simp [h.devices, hd]
        · cases List.mem_append.mp hs
          case inl hs => exact List.mem_cons_of_mem _ (h.covers m hs hp dev' h')
          case inr hs =>
            rw [List.mem_singleton.mp hs, hd] at h'
            exact Option.some.inj h' ▸ List.mem_cons_self

theorem foldl (h : Marked device seen marks) :
    Marked device (seen ++ mounts) (mounts.foldl (Gate.addMark device) marks) := by
  induction mounts generalizing seen marks
  case nil => simpa using h
  case cons mount mounts ih => simpa using ih (h.addMark : Marked device (seen ++ [mount]) _)

end Marked

-- Every device of a mount that is not of a pseudo file system and can be examined has one mark.
theorem discoverMarks_covers {table : Bytes} (hm : mount ∈ parseMountinfo table) (hp : mount.2 ∉ PSEUDO_FS)
    (hd : device mount.1 = some dev) : ((discoverMarks device table).map device).count (some dev) = 1 := by
  have h : Marked device [] ([], []) := ⟨rfl, List.nodup_nil, nofun⟩
  have h : Marked device ([] ++ parseMountinfo table) _ := h.foldl
  rw [discoverMarks, h.devices]
  refine List.count_eq_one_of_mem ?_ ?_
  · exact (List.nodup_reverse.mpr h.nodup).map (Option.some_injective _)
  · exact List.mem_map_of_mem (List.mem_reverse.mpr (h.covers mount hm hp dev hd))

end Gate
