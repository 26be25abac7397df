import TptRfc.Snmp.Agent

/-!
# SNMP: the answer to a request

What RFC 3416 asks of the response (`FollowsRfc`), compared with `process_request` (`agent.rs`).

* `GetNext` answers with the successor of each name, or `endOfMibView` behind the last object.
* `GetBulk` answers with the successors of the first names and then, repetition by repetition, with
  the next successors of all the others; only values `endOfMibView` may be cut off at its end.
* `Set` applies all bindings or none, and reports the first that is refused.

The agent answers `noSuchObject` behind the last object, reads a non-repeater itself instead of
its successor, goes through the repeaters one after the other, and reports every `Set` as done.
The successor is the one of the handler; that of the MIB in memory is the least greater name.
-/

namespace TptRfc.Snmp

open List

variable {M : Type}

/-! ## The order of names -/

/-- `out` is `full` without some values `endOfMibView` at its end. -/
def CutShort (out full : VarBindList) : Prop :=
  ∃ rest, full = out ++ rest ∧ ∀ b ∈ rest, b.value = .endOfMibView

variable {h : MibHandler M} {mib : M} {cur : Oid}

theorem CutShort.refl (out : VarBindList) : CutShort out out := ⟨[], (append_nil _).symm, nofun⟩

end TptRfc.Snmp
