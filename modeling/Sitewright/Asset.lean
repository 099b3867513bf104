import Sitewright.Json.Decode

/-!
# Assets of pages
-/

namespace Sitewright

inductive AssetKind
  | script
  | style
  | font
  | icon
  | canonical
  deriving Repr, DecidableEq, Inhabited

structure AssetOptions where
  /-- Scripts with the target `body` go there, all others into the head. -/
  target : Option String := none
  defer : Bool := false
  isAsync : Bool := false
  iconType : Option String := none
  iconSizes : Option String := none
  deriving Repr, DecidableEq, Inhabited

structure Asset where
  kind : AssetKind
  path : Option String := none
  content : Option String := none
  options : AssetOptions := {}
  deriving Repr, DecidableEq, Inhabited

open Json

def AssetKind.name : AssetKind → String
  | script => "script"
  | style => "style"
  | font => "font"
  | icon => "icon"
  | canonical => "canonical"

def AssetKind.ofJson? (j : Json) : Option AssetKind := do
  match ← j.word? with
  | "script" => pure .script
  | "style" => pure .style
  | "font" => pure .font
  | "icon" => pure .icon
  | "canonical" => pure .canonical
  | _ => none

def AssetOptions.toJson (o : AssetOptions) : Json :=
  .object [("target", ofOption .string o.target), ("defer", .bool o.defer),
    ("async", .bool o.isAsync), ("iconType", ofOption .string o.iconType),
    ("iconSizes", ofOption .string o.iconSizes)]

def AssetOptions.ofJson? (j : Json) : Option AssetOptions := do
  match ← j.record? [["target"], ["defer"], ["async"], ["iconType"], ["iconSizes"]] with
  | [target, defer, isAsync, iconType, iconSizes] =>
    pure { target := ← nullable string? target
           defer := ← defaulted bool? false defer
           isAsync := ← defaulted bool? false isAsync
           iconType := ← nullable string? iconType
           iconSizes := ← nullable string? iconSizes }
  | _ => none

def Asset.toJson (a : Asset) : Json :=
  .object [("type", .string a.kind.name), ("path", ofOption .string a.path),
    ("content", ofOption .string a.content), ("options", a.options.toJson)]

def Asset.ofJson? (j : Json) : Option Asset := do
  match ← j.record? [["type"], ["path"], ["content"], ["options"]] with
  | [kind, path, content, options] =>
    pure { kind := ← required AssetKind.ofJson? kind
           path := ← nullable string? path
           content := ← nullable string? content
           options := ← defaulted AssetOptions.ofJson? {} options }
  | _ => none

end Sitewright
