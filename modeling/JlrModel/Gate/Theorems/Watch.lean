import JlrModel.Gate.Theorems.Mounts
import JlrModel.Gate.Watch
import Mathlib.Data.Prod.Lex
import Mathlib.Order.OrderIsoNat

namespace Gate

namespace MountNs

variable {ns : MountNs} {m : Mount} {sb : Nat}

theorem parse_table (ns : MountNs) : parseMountinfo ns.table =
    ns.mounts.map fun m => (m.1.mountPoint, Utf8.fromLossy (escapeMountinfo m.1.fsType)) := by
  rw [table, parseMountinfo_mountinfo (List.forall_mem_map.mpr ns.named), List.map_map]
  rfl

-- One of the paths to mark leads to the superblock of each visible mount.
theorem Visible.marks (h : ns.Visible m sb) : ∃ path ∈ discoverMarks ns.device ns.table, ns.resolve path = some sb := by
  have hm : (m.mountPoint, Utf8.fromLossy (escapeMountinfo m.fsType)) ∈ parseMountinfo ns.table := by
    rw [parse_table]
    exact List.mem_map.mpr ⟨_, h.mounted, rfl⟩
  have hd : ns.device m.mountPoint = some (ns.dev sb) := by rw [device, h.leads, Option.map_some]
  have hc := discoverMarks_covers hm h.real hd
  obtain ⟨path, hp, hdev⟩ := List.mem_map.mp (List.count_pos_iff.mp (hc ▸ Nat.one_pos))
  obtain ⟨sb', hr, hs⟩ := Option.map_eq_some_iff.mp hdev
  rw [ns.dev_inj sb' (ns.mounted path sb' hr) sb (List.mem_map_of_mem h.mounted) hs] at hr
  exact ⟨path, hp, hr⟩

end MountNs

namespace Watch

variable {s s' start : Watch} {a : Actor} {path : Bytes}

-- Where a path leads to is marked, or the kernel has refused to do so.
def Served (s : Watch) (path : Bytes) : Prop :=
  ∀ sb, s.ns.resolve path = some sb → sb ∈ s.marked ∨ sb ∈ s.refused

-- How far a pass has come, if nothing has changed since the poll before it.
def Progress (s : Watch) : Pass → Prop
  | .waiting              => s.retry = false → ∀ path ∈ discoverMarks s.ns.device s.ns.table, s.Served path
  | .reading              => True
  | .examining left found => ∃ seen, parseMountinfo s.ns.table = seen ++ left ∧
    found = seen.foldl (addMark s.ns.device) ([], [])
  | .marking left         => s.retry = false ∧ ∀ path ∈ discoverMarks s.ns.device s.ns.table, path ∈ left ∨ s.Served path

theorem Step.progress (st : Step a s s') (h : s.changed = false → s.Progress s.pass) (hc : s'.changed = false) :
    s'.Progress s'.pass := by
  cases st
  case change => cases hc
  case poll hp =>
    dsimp only
    split
    case isTrue => trivial
    case isFalse hn =>
      obtain ⟨hn, _⟩ := not_or.mp hn
      have h := h (Bool.eq_false_iff.mpr hn)
      rw [hp] at h
      exact h
  case read bytes hp hb =>
    rw [hb hc]
    exact ⟨[], rfl, rfl⟩
  case unreadable hp => exact nofun
  case examine left found m hp =>
    have h := h hc
    rw [hp] at h
    obtain ⟨seen, hs, rfl⟩ := h
    exact ⟨seen ++ [m], by rw [hs, List.append_assoc, List.singleton_append], by rw [List.foldl_append]; rfl⟩
  case examined found hp =>
    have h := h hc
    rw [hp] at h
    obtain ⟨seen, hs, rfl⟩ := h
    refine ⟨rfl, fun path hm => .inl ?_⟩
    rw [discoverMarks, hs, List.append_nil] at hm
    exact hm
  case mark path left sb hp hr =>
    have h := h hc
    rw [hp] at h
    refine ⟨h.left, fun path' hm => ?_⟩
    obtain hl | hv := h.right path' hm
    · obtain rfl | hl := List.mem_cons.mp hl
      · refine .inr fun sb' hr' => .inl ?_
        exact Option.some.inj (hr.symm.trans hr') ▸ List.mem_cons_self
      · exact .inl hl
    · exact .inr fun sb' hr' => (hv sb' hr').imp_left (List.mem_cons_of_mem _)
  case refuse path left hp =>
    have h := h hc
    rw [hp] at h
    refine ⟨h.left, fun path' hm => ?_⟩
    obtain hl | hv := h.right path' hm
    · obtain rfl | hl := List.mem_cons.mp hl
      · refine .inr fun sb' hr' => .inr (List.mem_append_left _ ?_)
        exact Option.mem_toList.mpr hr'
      · exact .inl hl
    · exact .inr fun sb' hr' => (hv sb' hr').imp_right (List.mem_append_right _)
  case done hp =>
    have h := h hc
    rw [hp] at h
    exact fun _ path hm => (h.right path hm).resolve_left List.not_mem_nil

theorem Runs.progress (hs : start.Starts) (h : Runs start s) (hc : s.changed = false) : s.Progress s.pass := by
  induction h
  case start =>
    rw [hs.pass]
    exact fun hr => absurd hs.retry (Bool.eq_false_iff.mp hr)
  case step st ih => exact st.progress ih hc

-- If the thread has nothing left to do, then no file system was missed.
theorem Runs.covers {m : Mount} {sb : Nat} (hs : start.Starts) (h : Runs start s) (hr : s.AtRest)
    (hv : s.ns.Visible m sb) : sb ∈ s.marked ∨ sb ∈ s.refused := by
  have hp := h.progress hs hr.changed
  rw [hr.pass] at hp
  obtain ⟨path, hm, hl⟩ := hv.marks
  exact hp hr.retry path hm sb hl

-- How much of a pass, and of the one that must follow it after a change, is left.
def rank (s : Watch) : Nat ×ₗ Nat :=
  toLex <| match s.pass with
  | .waiting          => (if s.changed ∨ s.retry then 4 else 0, 0)
  | .reading          => (if s.changed then 7 else 3, 0)
  | .examining left _ => (if s.changed then 6 else 2, left.length)
  | .marking left     => (if s.changed then 5 else 1, left.length)

theorem Step.rank_lt (st : Step .thread s s') (h : s.changed = false → s.Progress s.pass) (hr : ¬ s.AtRest) :
    s'.rank < s.rank := by
  cases st
  case poll hp =>
    have hw : s.changed ∨ s.retry := by
      by_contra hn
      obtain ⟨hc, ht⟩ := not_or.mp hn
      exact hr ⟨hp, Bool.eq_false_iff.mpr hc, Bool.eq_false_iff.mpr ht⟩
    simp [rank, hp, hw, Prod.Lex.toLex_lt_toLex]
  case read hp _ => cases hc : s.changed <;> simp [rank, hp, hc, Prod.Lex.toLex_lt_toLex]
  case examine hp => simp [rank, hp, Prod.Lex.toLex_lt_toLex]
  case examined hp => cases hc : s.changed <;> simp [rank, hp, hc, Prod.Lex.toLex_lt_toLex]
  case mark hp _ => simp [rank, hp, Prod.Lex.toLex_lt_toLex]
  case refuse hp => simp [rank, hp, Prod.Lex.toLex_lt_toLex]
  case done hp =>
    cases hc : s.changed
    case false =>
      have h := h hc
      rw [hp] at h
      simp [rank, hp, hc, h.left, Prod.Lex.toLex_lt_toLex]
    case true => simp [rank, hp, hc, Prod.Lex.toLex_lt_toLex]

theorem Step.ns_eq (st : Step .thread s s') : s'.ns = s.ns := by
  cases st <;> rfl

-- The thread is never stuck.
theorem Step.exists_thread (s : Watch) : ∃ s', Step .thread s s' := by
  cases hp : s.pass
  case waiting => exact ⟨_, .poll hp⟩
  case reading => exact ⟨_, .read s.ns.table hp fun _ => rfl⟩
  case examining left found =>
    cases left
    case nil => exact ⟨_, .examined hp⟩
    case cons => exact ⟨_, .examine hp⟩
  case marking left =>
    cases left
    case nil => exact ⟨_, .done hp⟩
    case cons => exact ⟨_, .refuse hp⟩

section Undisturbed

variable {f : Nat → Watch} (hf : ∀ n, Step .thread (f n) (f (n + 1)))

include hf

theorem Runs.undisturbed (h : Runs start (f 0)) (n : Nat) : Runs start (f n) ∧ (f n).ns = (f 0).ns := by
  induction n
  case zero => exact ⟨h, rfl⟩
  case succ n ih => exact ⟨ih.left.step (hf n), (hf n).ns_eq.trans ih.right⟩

theorem Runs.exists_atRest (hs : start.Starts) (h : Runs start (f 0)) : ∃ n, (f n).AtRest := by
  by_contra hn
  have hlt : ∀ n, (f (n + 1)).rank < (f n).rank := fun n =>
    (hf n).rank_lt ((h.undisturbed hf n).left.progress hs) fun hr => hn ⟨n, hr⟩
  exact not_strictAnti_of_wellFoundedLT (fun n => (f n).rank) (strictAnti_nat_of_succ_lt hlt)

end Undisturbed

-- Whatever is mounted and unmounted while the thread works, and however often the table can not be read: if the thread
-- has nothing left to do, then every file system that a mount point leads to is marked, unless the kernel has refused
-- that. And the thread can always go on, and after the last change this is so before long if the table can be read.
theorem watch_misses_nothing (hs : start.Starts) (h : Runs start s) :
    (s.AtRest → ∀ m sb, s.ns.Visible m sb → sb ∈ s.marked ∨ sb ∈ s.refused) ∧
    (∃ s', Step .thread s s') ∧
    ∀ f : Nat → Watch, f 0 = s → (∀ n, Step .thread (f n) (f (n + 1))) →
      ∃ n, (f n).AtRest ∧ ∀ m sb, s.ns.Visible m sb → sb ∈ (f n).marked ∨ sb ∈ (f n).refused := by
  refine ⟨fun hr m sb hv => h.covers hs hr hv, Step.exists_thread s, ?_⟩
  rintro f rfl hf
  obtain ⟨n, hr⟩ := h.exists_atRest hf hs
  obtain ⟨hn, hns⟩ := h.undisturbed hf n
  exact ⟨n, hr, fun m sb hv => hn.covers hs hr (hns ▸ hv)⟩

-- A file system that is mounted after the thread was started.
namespace Mounted

def ns : MountNs where
  mounts             := [(Gate.Mounted.mount [0x2f] [0x78, 0x66, 0x73], 1)]
  resolve path       := if path = [0x2f] then some 1 else none
  dev _              := 7
  named              := by decide
  mounted path sb h  := by
    obtain ⟨_, h⟩ := Option.ite_none_right_eq_some.mp h
    exact Option.some.inj h ▸ List.mem_singleton_self _
  dev_inj sb h sb' h' _ := (List.mem_singleton.mp h).trans (List.mem_singleton.mp h').symm

def before : Watch where
  ns      := { mounts := [], resolve _ := none, dev _ := 7, named := nofun, mounted := nofun, dev_inj := nofun }
  changed := false
  retry   := true
  pass    := .waiting
  marked  := []
  refused := []

def rest : Watch :=
  ⟨ns, false, false, .waiting, [1], []⟩

theorem visible : ns.Visible (Gate.Mounted.mount [0x2f] [0x78, 0x66, 0x73]) 1 :=
  ⟨List.mem_singleton_self _, by decide, rfl⟩

theorem runs : Runs before rest := by
  have hread : parseMountinfo ns.table = [([0x2f], "xfs")] := ns.parse_table.trans (by decide)
  have hadd : addMark ns.device ([], []) ([0x2f], "xfs") = ([7], [[0x2f]]) := by decide
  have h₁ : Runs before ⟨ns, true, true, .waiting, [], []⟩ := .step .start (.change ns)
  have h₂ : Runs before ⟨ns, false, true, .reading, [], []⟩ := .step h₁ (.poll rfl)
  have h₃ : Runs before ⟨ns, false, true, .examining (parseMountinfo ns.table) ([], []), [], []⟩ :=
    .step h₂ (.read ns.table rfl fun _ => rfl)
  rw [hread] at h₃
  have h₄ : Runs before ⟨ns, false, true, .examining [] (addMark ns.device ([], []) ([0x2f], "xfs")), [], []⟩ :=
    .step h₃ (.examine rfl)
  rw [hadd] at h₄
  have h₅ := h₄.step (.examined rfl)
  have h₆ : Runs before ⟨ns, false, false, .marking [], [1], []⟩ := .step h₅ (.mark rfl rfl)
  exact .step h₆ (.done rfl)

theorem watch_misses_nothing_mounted : Runs before rest ∧ rest.AtRest ∧ (1 ∈ rest.marked ∨ 1 ∈ rest.refused) :=
  ⟨runs, ⟨rfl, rfl, rfl⟩, (watch_misses_nothing ⟨rfl, rfl⟩ runs).left ⟨rfl, rfl, rfl⟩ _ _ visible⟩

end Mounted

end Watch

end Gate
