import JlrModel.Ledger.Run

-- A writer whose files others can see while it writes to them.
structure Writing where
  -- The ledger and its history when no call was going on last.
  before : Ledger × Journal
  -- The same for the moment when the current call returns.
  after  : Ledger × Journal
  -- What can be seen of the logs.
  shown  : Log → Bytes

namespace Writing

def idle (s : Ledger × Journal) : Writing where
  before    := s
  after     := s
  shown log := (s.1.logs log).data

variable [Crypto]

-- The bytes of a frame become visible one by one, in their order.
inductive Step (node : String) (anchors : TrustAnchors) : Writing → Writing → Prop
  | call : Ledger.Step node anchors s s' → Step node anchors (idle s) { idle s with after := s' }
  | byte {w : Writing} : w.shown log ++ [b] <+: (w.after.1.logs log).data →
      Step node anchors w { w with shown := Function.update w.shown log (w.shown log ++ [b]) }
  | return {w : Writing} : (∀ log, w.shown log = (w.after.1.logs log).data) →
      Step node anchors w (idle w.after)

def Reaches (node : String) (anchors : TrustAnchors) : Writing → Writing → Prop :=
  Relation.ReflTransGen (Step node anchors)

end Writing
