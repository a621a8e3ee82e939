import JlrModel.Cbor.Record
import Mathlib.Data.List.Nodup

open Cbor

-- What `coded_enum!` declares: every variant in the order of declaration with its wire code and its
-- name. The table is complete and no code occurs twice.
class Coded (α : Type) [DecidableEq α] where
  typeName : String
  table    : List (α × UInt8 × String)
  complete : ∀ a, a ∈ table.map Prod.fst := by intro a; cases a <;> decide
  codes    : (table.map (·.2.1)).Nodup := by decide

namespace Coded

variable [DecidableEq α] [Coded α]

def ALL (α) [DecidableEq α] [Coded α] : List α :=
  table.map Prod.fst

def row (a : α) : UInt8 × String :=
  table.lookup a |>.getD (0, "")

def code (a : α) : UInt8 :=
  (row a).1

def asStr (a : α) : String :=
  (row a).2

def parse (α) [DecidableEq α] [Coded α] (s : String) : Option α :=
  ALL α |>.find? (Text.eqIgnoreAsciiCase s <| asStr ·)

def fromCode (α) [DecidableEq α] [Coded α] (c : UInt8) : Option α :=
  ALL α |>.find? (code · == c)

instance : Cbor α where
  toValue a   := .uint (code a).toUInt64
  fromValue v := do Except.okOr (.invalid <| "unknown " ++ typeName α) (fromCode α (← v.asU8))

theorem mem_ALL (a : α) : a ∈ ALL α :=
  complete a

theorem row_mem (a : α) : (a, row a) ∈ table (α := α) := by
  have h : ∀ {t : List (α × UInt8 × String)}, a ∈ t.map Prod.fst →
      (a, (t.lookup a).getD (0, "")) ∈ t := by
    intro t ht
    induction t
    case nil => simp at ht
    case cons e t ih =>
      obtain ⟨b, _⟩ := e
      by_cases he : a = b
      · simp [he]
      · simp only [List.map_cons, List.mem_cons, he, false_or] at ht
        simp [List.lookup_cons, beq_eq_false_iff_ne.mpr he, ih ht]
  exact h (complete a)

theorem code_inj {a b : α} (h : code a = code b) : a = b := by
  have he := List.inj_on_of_nodup_map codes (row_mem a) (row_mem b) h
  exact (Prod.mk.inj he).left

theorem fromCode_code (a : α) : fromCode α (code a) = some a := by
  cases h : fromCode α (code a)
  case none => simpa using List.find?_eq_none.mp h a (mem_ALL a)
  case some b => exact congrArg some <| code_inj <| by simpa using List.find?_some h

end Coded
