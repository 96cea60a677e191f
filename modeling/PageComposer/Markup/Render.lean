/-
# Documents as markup

| item | written |
| --- | --- |
| text leaf | as it is |
| transparent node | its content |
| void element without content | its start tag |
| other node | start tag, content, end tag |
| attribute | ` name="value"` with `&`, `<`, `>` and both quotes escaped; ` name` for a bare presence; nothing if it is switched off |
-/

import PageComposer.Document.Content

namespace PageComposer
namespace Markup

/-- The elements that are written without an end tag when they have no content. -/
def voidWhenWritten : List String :=
  ["area", "base", "br", "col", "embed", "hr", "img", "input", "link", "meta", "source", "track",
    "wbr"]

/-- One character of an attribute value. -/
def quotedChar : Char → List Char
  | '&' => "&amp;".toList
  | '<' => "&lt;".toList
  | '>' => "&gt;".toList
  | '"' => "&quot;".toList
  | '\'' => "&#x27;".toList
  | c => [c]

/-- An attribute value between double quotes, without them. -/
def quotedValue (s : String) : String :=
  String.ofList (s.toList.flatMap quotedChar)

/-- One attribute with the space before it. -/
def renderAttr : String × AttrValue → String
  | (name, .flag true) => " " ++ name
  | (_, .flag false) => ""
  | (_, .absent) => ""
  | (name, .text s) => " " ++ name ++ "=\"" ++ quotedValue s ++ "\""

/-- Attributes with a space before each. -/
def renderAttrs (attrs : Attrs) : String :=
  String.join (attrs.map renderAttr)

/-- A start tag. -/
def startTagText (tag : String) (attrs : Attrs) : String :=
  "<" ++ tag ++ renderAttrs attrs ++ ">"

mutual

/-- An item as markup. -/
def renderItem : Content → String
  | .text s => s
  | .node h children =>
    match h.tag with
    | none => render children
    | some tag =>
      if voidWhenWritten.contains tag && children.isEmpty then startTagText tag h.attrs
      else startTagText tag h.attrs ++ render children ++ "</" ++ tag ++ ">"

/-- A content list as markup. -/
def render : List Content → String
  | [] => ""
  | item :: rest => renderItem item ++ render rest

end

theorem render_append (xs ys : List Content) : render (xs ++ ys) = render xs ++ render ys := by
  induction xs with
  | nil => simp [render]
  | cons x xs ih => simp [render, ih, String.append_assoc]

@[simp] theorem renderItem_transparent {h : Head} (ht : h.tag = none) (children : List Content) :
    renderItem (.node h children) = render children := by
  simp [renderItem, ht]

end Markup
end PageComposer
