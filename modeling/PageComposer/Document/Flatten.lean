/-
# Content as text inside an attribute

What is spliced into an attribute value is written without escapes, since the value around it is
markup already.

| item | written |
| --- | --- |
| text leaf | as it is |
| transparent node | its content |
| other node | start tag, content, end tag, also for void elements |
| attribute | ` name="value"`, ` name` for a bare presence or an empty value |
-/

import PageComposer.Document.Content

namespace PageComposer
namespace Content

/-- One attribute with the space before it. -/
def flatAttr : String × AttrValue → String
  | (name, .flag true) => " " ++ name
  | (name, .text s) => if s.isEmpty then " " ++ name else " " ++ name ++ "=\"" ++ s ++ "\""
  | (name, .flag false) => " " ++ name ++ "=\"False\""
  | (name, .absent) => " " ++ name ++ "=\"None\""

mutual

/-- An item as text inside an attribute. -/
def flattenItem : Content → String
  | .text s => s
  | .node h children =>
    match h.tag with
    | none => flatten children
    | some tag =>
      "<" ++ tag ++ String.join (h.attrs.map flatAttr) ++ ">" ++ flatten children ++ "</" ++ tag ++
        ">"

/-- A content list as text inside an attribute. -/
def flatten : List Content → String
  | [] => ""
  | item :: rest => flattenItem item ++ flatten rest

end

theorem flatten_append (xs ys : List Content) : flatten (xs ++ ys) = flatten xs ++ flatten ys := by
  induction xs with
  | nil => simp [flatten]
  | cons x xs ih => simp [flatten, ih, String.append_assoc]

theorem flattenItem_transparent {h : Head} (ht : h.tag = none) (children : List Content) :
    flattenItem (.node h children) = flatten children := by
  simp [flattenItem, ht]

theorem flattenItem_element {h : Head} {tag : String} (ht : h.tag = some tag) (children : List Content) :
    flattenItem (.node h children) =
      "<" ++ tag ++ String.join (h.attrs.map flatAttr) ++ ">" ++ flatten children ++ "</" ++ tag ++ ">" := by
  simp [flattenItem, ht]

end Content
end PageComposer
