import TypeLens.Decode.Scalar
import TypeLens.Decode.Schema

/-!
# Options of a look-up

Options bound how much of a type is expanded and say which names are not expanded at all. The five
caps are natural numbers; `Options.full` lifts them all to the greatest cap.

Options arrive and leave as objects. A preset is an object too: `Options.fullFields` merges the
fields given over the preset's own, name by name, before they are decoded.
-/

namespace TypeLens

/-- Bounds and policies of an expansion. -/
structure Options where
  /-- Whether private members are left out. -/
  hidePrivate : Bool := true
  /-- The number of object levels that are expanded. -/
  maxDepth : Nat := 2
  /-- The number of properties shown at the top level. -/
  maxProperties : Nat := 100
  /-- The number of properties shown below the top level. -/
  maxSubProperties : Nat := 5
  /-- The number of union members shown. -/
  maxUnionMembers : Nat := 15
  /-- The number of function signatures shown. -/
  maxSignatures : Nat := 5
  /-- The names of types that are not expanded. -/
  skippedNames : List String := []
  /-- Whether the element types of arrays are expanded. -/
  unwrapArrays : Bool := true
  /-- Whether parameter and result types are expanded. -/
  unwrapFunctions : Bool := true
  /-- The names of generic types that are shown by their arguments. -/
  unwrappedGenerics : List String := []
  /-- Whether display parts are made. -/
  displayParts : Bool := false
  /-- The time in milliseconds from which a look-up is reported as slow. -/
  slowAfter : Float := 20
deriving Repr, Inhabited

namespace Options

/-- The cap that stands for no bound. -/
def unbounded : Nat := 9223372036854775807

/-- The fields of options. -/
def schema : Schema Options :=
  Options.mk
    <$> .defaulting ["hidePrivateProperties", "hide_private_properties"] true Decoder.boolean
    <*> .defaulting ["maxDepth", "max_depth"] 2 Decoder.natural
    <*> .defaulting ["maxProperties", "max_properties"] 100 Decoder.natural
    <*> .defaulting ["maxSubProperties", "max_sub_properties"] 5 Decoder.natural
    <*> .defaulting ["maxUnionMembers", "max_union_members"] 15 Decoder.natural
    <*> .defaulting ["maxFunctionSignatures", "max_function_signatures"] 5 Decoder.natural
    <*> .defaulting ["skippedTypeNames", "skipped_type_names"] [] (Decoder.list Decoder.string)
    <*> .defaulting ["unwrapArrays", "unwrap_arrays"] true Decoder.boolean
    <*> .defaulting ["unwrapFunctions", "unwrap_functions"] true Decoder.boolean
    <*> .defaulting ["unwrapGenericArgumentsTypeNames", "unwrap_generic_arguments_type_names"] []
      (Decoder.list Decoder.string)
    <*> .defaulting ["generateDisplayParts", "generate_display_parts"] false Decoder.boolean
    <*> .defaulting ["perfWarningThresholdMs", "perf_warning_threshold_ms"] 20 Decoder.number

/-- Reads options. -/
def decode : Decoder Options :=
  schema.openRecord

/-- Options as an object. -/
def toJson (o : Options) : Json :=
  .obj [("hidePrivateProperties", .bool o.hidePrivate), ("maxDepth", .int o.maxDepth),
    ("maxProperties", .int o.maxProperties), ("maxSubProperties", .int o.maxSubProperties),
    ("maxUnionMembers", .int o.maxUnionMembers), ("maxFunctionSignatures", .int o.maxSignatures),
    ("skippedTypeNames", .strings o.skippedNames), ("unwrapArrays", .bool o.unwrapArrays),
    ("unwrapFunctions", .bool o.unwrapFunctions),
    ("unwrapGenericArgumentsTypeNames", .strings o.unwrappedGenerics),
    ("generateDisplayParts", .bool o.displayParts), ("perfWarningThresholdMs", .float o.slowAfter)]

/-- The fields of the preset without bounds. -/
def fullPreset : Fields :=
  [("max_depth", .int unbounded), ("max_properties", .int unbounded),
    ("max_sub_properties", .int unbounded), ("max_union_members", .int unbounded),
    ("max_function_signatures", .int unbounded), ("unwrap_arrays", .bool true),
    ("unwrap_functions", .bool true)]

/-- Reads options given as changes to the preset without bounds. -/
def decodeFull (changes : Fields) : Decoded Options :=
  schema.decode (fullPreset.merge changes)

/-- Options with all bounds lifted; the policies on names and members are kept. -/
def full (o : Options) : Options :=
  { o with
    maxDepth := unbounded
    maxProperties := unbounded
    maxSubProperties := unbounded
    maxUnionMembers := unbounded
    maxSignatures := unbounded
    unwrapArrays := true
    unwrapFunctions := true }

end Options

end TypeLens
