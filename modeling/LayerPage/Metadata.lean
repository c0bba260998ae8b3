/-
Metadata: the entries of a layer name, keyed `namespace:key`. The namespace picks a handler, which
applies the key and the value to the element being made. An entry that cannot be applied becomes a
diagnostic, and the entries after it still apply. What its handler had changed by then stays changed.
-/
import LayerPage.Diagnostic
import LayerPage.Element.Basic
import LayerPage.Fault

namespace LayerPage

/-- What a handler makes of an entry. -/
inductive EntryOutcome (α : Type)
  | ok (element : Element α)
  /-- The entry cannot be applied. The element is left as it was, unless the handler fails halfway. -/
  | error (fault : Fault) (abandoned? : Option (Element α) := none)

namespace EntryOutcome

variable {α : Type}

/-- The element that is left of the one before, whether the entry was applied or not. -/
def after (before : Element α) : EntryOutcome α → Element α
  | ok element => element
  | error _ abandoned? => abandoned?.getD before

/-- Why the entry cannot be applied. -/
def fault? : EntryOutcome α → Option Fault
  | ok _ => none
  | error fault _ => some fault

end EntryOutcome

/-- Applies the entries of one namespace to an element. -/
abbrev MetadataHandler (α : Type) :=
  Element α → (key value : String) → EntryOutcome α

/-- The handlers by namespace. -/
abbrev MetadataRegistry (α : Type) :=
  SortedMap (MetadataHandler α)

namespace Metadata

variable {α : Type}

/-- Code of the diagnostics of this module. -/
def code : String := "strata::metadata"

/-- Entries of `attr` set an attribute. -/
def attributeHandler : MetadataHandler α :=
  fun element key value => .ok (element.setAttribute key value)

/-- Entries of `css` pin a style property, which must have a name. -/
def styleHandler : MetadataHandler α :=
  fun element key value =>
    if key.isEmpty then .error (.metadata "css: entry has no property name")
    else .ok (element.modifyStyle (·.pin key value))

/-- The handlers for `attr` and `css`. -/
def builtin : MetadataRegistry α :=
  SortedMap.ofList [("attr", attributeHandler), ("css", styleHandler)]

/-- Split an entry's key at its first colon. -/
def splitKey? (raw : String) : Option (String × String) :=
  (Text.splitAt? ':' raw.toList).map fun (space, key) => (String.ofList space, String.ofList key)

/-- Advice for an entry without a handler. -/
def advice (registry : MetadataRegistry α) : String :=
  "Use one of: " ++ ", ".intercalate registry.keys

/-- Apply one entry. If it is refused, a diagnostic says why. -/
def applyEntry (registry : MetadataRegistry α) (layerName : String) (element : Element α)
    (raw value : String) : Element α × Option Diagnostic :=
  let refusal (message : String) (help? : Option String) : Diagnostic :=
    { code, message, layer? := some layerName, help? }
  match splitKey? raw with
  | none =>
    (element, refusal ("attribute '" ++ raw ++ "' has no namespace") (advice registry))
  | some (space, key) =>
    match registry.get? space with
    | none => (element, refusal ("namespace '" ++ space ++ "' not found") (advice registry))
    | some handler =>
      let outcome := handler element key value
      (outcome.after element, outcome.fault?.map fun fault => refusal fault.message none)

/-- Apply entries in key order. -/
def apply [Layer α] (registry : MetadataRegistry α) (element : Element α)
    (entries : SortedMap String) : Element α × List Diagnostic :=
  entries.toList.foldl
    (fun (applied, diagnostics) (raw, value) =>
      let (applied, diagnostic?) := applyEntry registry element.layerName applied raw value
      (applied, diagnostics ++ diagnostic?.toList))
    (element, [])

end Metadata

end LayerPage
