/-
# Bundled settings

| file | holds |
| --- | --- |
| `config/defaults.yaml` | the settings that count where nothing else is said |
| `schemas/config.schema.yaml` | the schema of the settings, written as a JSON schema |
-/

import PageComposer.Config.Merge
import PageComposer.Config.Schema

namespace PageComposer
namespace Config

/-- A map with text keys. -/
def mapOf (fields : List (String × Value)) : Value :=
  .map (fields.map fun f => (.text f.1, f.2))

/-- The settings that count where nothing else is said. -/
def defaults : Entries :=
  [(.text "composition", mapOf
     [("root", .text "src"), ("pages_dir", .text "src/pages"), ("out_dir", .text "dist"),
      ("empty_out_dir", .bool true), ("encoding", .text "utf-8"), ("max_depth", .int 10)]),
   (.text "logging", mapOf [("level", .text "WARNING"), ("file", .null)])]

/-- A limit as a property of a JSON schema. -/
def Limit.toField : Limit → String × Value
  | .nonEmpty => ("minLength", .int 1)
  | .atLeast n => ("minimum", .int n)
  | .oneOf texts => ("enum", .list (texts.map .text))

/-- Kinds as the type of a JSON schema. -/
def kindsValue : List Kind → Value
  | [k] => .text k.name
  | ks => .list (ks.map fun k => .text k.name)

namespace Schema

mutual

/-- A schema as a JSON schema. -/
def toValue : Schema → Value
  | .leaf kinds limits => mapOf (("type", kindsValue kinds) :: limits.map Limit.toField)
  | .record closed fields =>
    mapOf ([("type", kindsValue [.map])] ++
      (if closed then [("additionalProperties", .bool false)] else []) ++
      [("properties", .map (fieldValues fields))])

/-- The fields of a record as the properties of a JSON schema. -/
def fieldValues : List (String × Schema) → Entries
  | [] => []
  | (name, s) :: rest => (.text name, toValue s) :: fieldValues rest

end

end Schema

/-- The schema of the settings as it is bundled. -/
def schemaFile : Entries :=
  [(.text "$schema", .text "https://json-schema.org/draft/2020-12/schema"),
   (.text "title", .text "htmlcompose configuration")] ++ Entries.within Schema.settings.toValue

/-- The bundled files by directory and name. -/
def bundledFiles : List ((String × String) × Entries) :=
  [(("config", "defaults.yaml"), defaults), (("schemas", "config.schema.yaml"), schemaFile)]

end Config
end PageComposer
