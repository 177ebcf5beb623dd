import WidgetCompiler.Problem

namespace WidgetCompiler.Widget

inductive Arity
  /-- No widgets; text goes to the text setter. -/
  | none
  /-- One child, by `set_child`. -/
  | single
  /-- Children in order, by `append`. -/
  | multiple
deriving Repr, DecidableEq

structure Descriptor where
  tag : String
  className : String
  arity : Arity
  ownAttributes : List String
  /-- The property that `bind` keeps in step with a cell. -/
  bindProperty : Option String
  textSetter : Option String
deriving Repr, DecidableEq

def layoutAttributes : List String :=
  ["vexpand", "hexpand", "valign", "halign", "margin_top", "margin_bottom", "margin_start",
    "margin_end", "css_classes", "tooltip_text", "sensitive", "visible"]

def registry : List Descriptor :=
  [⟨"box", "Gtk.Box", .multiple, ["orientation", "spacing", "homogeneous", "baseline_position"],
      none, none⟩,
    ⟨"button", "Gtk.Button", .single, ["label", "icon_name", "has_frame", "use_underline"],
      none, none⟩,
    ⟨"checkbutton", "Gtk.CheckButton", .none,
      ["label", "bind", "active", "inconsistent", "use_underline"],
      some "active", some "set_label"⟩,
    ⟨"entry", "Gtk.Entry", .none,
      ["bind", "text", "placeholder_text", "visibility", "editable", "max_length", "has_frame",
        "activates_default", "input_purpose", "input_hints"],
      some "text", some "set_text"⟩,
    ⟨"frame", "Gtk.Frame", .single, ["label", "label_xalign"], none, none⟩,
    ⟨"grid", "Gtk.Grid", .multiple,
      ["row_spacing", "column_spacing", "row_homogeneous", "column_homogeneous", "baseline_row"],
      none, none⟩,
    ⟨"image", "Gtk.Image", .none, ["icon_name", "file", "resource", "pixel_size", "icon_size"],
      none, none⟩,
    ⟨"label", "Gtk.Label", .none,
      ["label", "use_markup", "use_underline", "selectable", "wrap", "wrap_mode", "lines",
        "justify", "ellipsize", "width_chars", "max_width_chars", "xalign", "yalign"],
      none, some "set_label"⟩,
    ⟨"listbox", "Gtk.ListBox", .multiple,
      ["selection_mode", "show_separators", "activate_on_single_click"], none, none⟩,
    ⟨"progressbar", "Gtk.ProgressBar", .none,
      ["fraction", "text", "show_text", "inverted", "pulse_step"], none, some "set_text"⟩,
    ⟨"scrolledwindow", "Gtk.ScrolledWindow", .single,
      ["hscrollbar_policy", "vscrollbar_policy", "min_content_width", "min_content_height",
        "max_content_width", "max_content_height", "overlay_scrolling", "propagate_natural_width",
        "propagate_natural_height", "has_frame"],
      none, none⟩,
    ⟨"separator", "Gtk.Separator", .none, ["orientation"], none, none⟩,
    ⟨"spinbutton", "Gtk.SpinButton", .none,
      ["bind", "value", "digits", "numeric", "wrap", "snap_to_ticks"], some "value", none⟩,
    ⟨"spinner", "Gtk.Spinner", .none, ["bind", "spinning"], some "spinning", none⟩,
    ⟨"switch", "Gtk.Switch", .none, ["bind", "active", "state"], some "active", none⟩]

def tags : List String :=
  registry.map Descriptor.tag

def lookup? (tag : String) : Option Descriptor :=
  registry.find? (·.tag == tag)

def resolve (tag : String) (span : Span) : Except Problem Descriptor :=
  match lookup? tag with
  | some d => .ok d
  | none => problem (.unknownTag tag tags) span

namespace Descriptor

def acceptedAttributes (d : Descriptor) : List String :=
  d.ownAttributes ++ layoutAttributes

def accepts (d : Descriptor) (name : String) : Bool :=
  d.acceptedAttributes.contains name

def rejects {α : Type} (d : Descriptor) (name : String) (span : Span) : Except Problem α :=
  problem (.unsupportedAttribute name d.tag d.acceptedAttributes) span

end Descriptor

def propertyName (name : String) : String :=
  if name = "class" then "css_classes"
  else String.ofList (name.toList.map fun c => if c = '-' then '_' else c)

end WidgetCompiler.Widget
