import CallFlow.Host.Collections
import CallFlow.Host.Template

/-!
# The standard registry

The functions and methods that are there without further ado.
-/

namespace CallFlow.Registry

open CallFlow.Host

/-- Functions by name, and methods by the type of their receiver. -/
def standard : Registry where
  functions := [
    ("add", .binary add),
    ("sub", .binary sub),
    ("mul", .binary mul),
    ("truediv", .binary trueDiv),
    ("floordiv", .binary floorDiv),
    ("mod", .binary modulo),
    ("neg", .unary neg),
    ("eq", .binary fun a b => .ok (.bool (a == b))),
    ("ne", .binary fun a b => .ok (.bool (a != b))),
    ("lt", .binary (comparison (· == .lt))),
    ("le", .binary (comparison (· != .gt))),
    ("gt", .binary (comparison (· == .gt))),
    ("ge", .binary (comparison (· != .lt))),
    ("not", .unary fun v => .ok (.bool (!v.truthy))),
    ("identity", .unary .ok),
    ("len", .unary len),
    ("range", .reading range),
    ("iter", .unary iter),
    ("next", .working next),
    ("list", .reading list),
    ("pack", .reading fun inv => .ok (.list inv.args)),
    ("dict", .reading fun inv => .ok (.map inv.kwargs)),
    ("str", .unary fun v => .ok (.str v.text)),
    ("format", .reading format),
    ("sum", .unary sum)]
  methods := [
    (("iterator", "next"), .working next),
    (("list", "append"), .working listAppend),
    (("list", "pop"), .working listPop),
    (("list", "extend"), .working listExtend),
    (("map", "get"), .working mapGet),
    (("map", "keys"), .working mapKeys),
    (("str", "upper"), .working (strMap Text.upper)),
    (("str", "lower"), .working (strMap Text.lower)),
    (("str", "split"), .working strSplit),
    (("str", "join"), .working strJoin)]

end CallFlow.Registry
