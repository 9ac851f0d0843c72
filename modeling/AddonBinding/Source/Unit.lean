import AddonBinding.Options
import AddonBinding.Source.Fragment
import AddonBinding.Text.Lines
import AddonBinding.Warning

namespace AddonBinding

open Source

namespace InterfacePlan

def fragments (i : InterfacePlan) : List Fragment :=
  i.constructor.fragment :: i.attributes.map (·.fragment i.name)

def classDeclaration (i : InterfacePlan) : ClassDeclaration where
  name := i.name
  entries := i.fragments.flatMap Fragment.entries
  fields := i.fragments.flatMap Fragment.fields

def initEntry (i : InterfacePlan) : EntryPoint where
  comment := none
  kind := .moduleInit
  symbol := i.name ++ "::Init"
  body :=
    let template := Expr.name "tpl"
    [.declare false (.named "v8::Local<v8::FunctionTemplate>") "tpl"
        (some (.callName "Nan::New<v8::FunctionTemplate>" [.name "New"])),
      .evaluate (template.arrowMethod "SetClassName" [hostName i.name]),
      .evaluate ((template.arrowMethod "InstanceTemplate").arrowMethod "SetInternalFieldCount"
        [.natural 1])]
      ++ i.fragments.flatMap Fragment.registrations
      ++ [.evaluate (.callName "Nan::Set" [.name "target", hostName i.name,
        (Expr.callName "Nan::GetFunction" [template]).method "ToLocalChecked"])]

def definitions (i : InterfacePlan) : List Item :=
  [.initialiser i.name (i.attributes.map fun a => (a.field, .ofNative a.type a.type.zero)),
    .destructor i.name, .entryPoint i.initEntry]
    ++ (i.fragments.flatMap Fragment.definitions).map .entryPoint

end InterfacePlan

namespace Source

def bannerLines (banner : String) : List String :=
  (Text.lines banner).map fun l =>
    String.ofList (Text.trimEnd Text.isSpace (commentLine l).toList)

def header (options : Options) (count : Nat) : Item :=
  .comments (commentLine ("Generated by widl-nan from " ++ toString count ++ " interface"
      ++ (if count = 1 then "" else "s") ++ ". Do not edit.")
    :: options.banner.elim [] bannerLines)

def initAllEntry (plans : List InterfacePlan) : EntryPoint where
  comment := none
  kind := .moduleInit
  symbol := "InitAll"
  body := plans.map fun i => .evaluate (.callName (i.name ++ "::Init") [.name "target"])

def warningItems (options : Options) (warnings : List Warning) : List Item :=
  if warnings.isEmpty || !options.verbose then []
  else [.comments (commentLine "WARNINGS:"
    :: warnings.map fun w => commentLine (w.label ++ ": " ++ w.message))]

-- All classes come before all their definitions.
def unitItems (options : Options) (plans : List InterfacePlan) : List Item :=
  [header options plans.length,
    .includes ["algorithm", "cmath", "cstdint", "limits", "string"],
    .includes ["nan.h"]]
    ++ helperItems options.coercion (plans.flatMap fun i => i.attributes.map (·.type))
    ++ plans.map (fun i => .classDeclaration i.classDeclaration)
    ++ plans.flatMap InterfacePlan.definitions
    ++ [.entryPoint (initAllEntry plans), .registration options.moduleName]
    ++ warningItems options (plans.flatMap InterfacePlan.warnings)

end Source

end AddonBinding
