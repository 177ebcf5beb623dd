namespace WidgetCompiler

def supportFile : String :=
  "runtime.js"

def supportLines : List String :=
  [
    "// Reactive runtime for compiled components.",
    "\"use strict\";",
    "",
    "let activeEffect = null;",
    "",
    "function $state(initialValue) \x7b",
    "  return \x7b _value: initialValue, _subscribers: new Set() \x7d;",
    "\x7d",
    "",
    "function $get(signal) \x7b",
    "  if (activeEffect && !activeEffect.disposed) \x7b",
    "    activeEffect.dependencies.add(signal);",
    "    signal._subscribers.add(activeEffect);",
    "  \x7d",
    "  return signal._value;",
    "\x7d",
    "",
    "function runSubscribers(signal) \x7b",
    "  for (const effect of [...signal._subscribers]) \x7b",
    "    if (!effect.disposed) effect.execute();",
    "  \x7d",
    "\x7d",
    "",
    "function $set(signal, newValue) \x7b",
    "  if (signal._value !== newValue) \x7b",
    "    signal._value = newValue;",
    "    runSubscribers(signal);",
    "  \x7d",
    "  return newValue;",
    "\x7d",
    "",
    "function $notify(signal) \x7b",
    "  runSubscribers(signal);",
    "\x7d",
    "",
    "// Drops subscriptions and disposes effects created by the previous run.",
    "function cleanup(effect) \x7b",
    "  for (const child of effect.children) dispose(child);",
    "  effect.children = [];",
    "  for (const dep of effect.dependencies) dep._subscribers.delete(effect);",
    "  effect.dependencies.clear();",
    "\x7d",
    "",
    "function dispose(effect) \x7b",
    "  effect.disposed = true;",
    "  cleanup(effect);",
    "\x7d",
    "",
    "function $effect(fn) \x7b",
    "  const effect = \x7b",
    "    dependencies: new Set(),",
    "    children: [],",
    "    disposed: false,",
    "    execute() \x7b",
    "      if (effect.disposed) return;",
    "      cleanup(effect);",
    "      const previous = activeEffect;",
    "      activeEffect = effect;",
    "      try \x7b",
    "        fn();",
    "      \x7d finally \x7b",
    "        activeEffect = previous;",
    "      \x7d",
    "    \x7d,",
    "  \x7d;",
    "  if (activeEffect) activeEffect.children.push(effect);",
    "  effect.execute();",
    "  return () => dispose(effect);",
    "\x7d",
    "",
    "function $derived(fn) \x7b",
    "  const signal = $state(undefined);",
    "  $effect(() => \x7b",
    "    $set(signal, fn());",
    "  \x7d);",
    "  return signal;",
    "\x7d",
    "",
    "function isStateObject(value) \x7b",
    "  return (",
    "    value != null &&",
    "    typeof value === \"object\" &&",
    "    \"_value\" in value &&",
    "    \"_subscribers\" in value",
    "  );",
    "\x7d",
    "",
    "// A bindable prop shares the parent's cell; any other prop is a local cell",
    "// kept in sync with whatever the parent passed.",
    "function $prop(props, key, defaultValue, isBindable) \x7b",
    "  const incoming = props[key];",
    "  if (isBindable && isStateObject(incoming)) return incoming;",
    "",
    "  const initial = isStateObject(incoming)",
    "    ? incoming._value",
    "    : incoming !== undefined",
    "      ? incoming",
    "      : defaultValue;",
    "  const local = $state(initial);",
    "",
    "  $effect(() => \x7b",
    "    const current = props[key];",
    "    if (current === undefined) \x7b",
    "      $set(local, defaultValue);",
    "    \x7d else if (isStateObject(current)) \x7b",
    "      $set(local, $get(current));",
    "    \x7d else \x7b",
    "      $set(local, current);",
    "    \x7d",
    "  \x7d);",
    "  return local;",
    "\x7d",
    "",
    "function $resolve_orientation(value) \x7b",
    "  const Gtk = imports.gi.Gtk;",
    "  if (value === \"vertical\" || value === \"v\") return Gtk.Orientation.VERTICAL;",
    "  if (value === \"horizontal\" || value === \"h\") return Gtk.Orientation.HORIZONTAL;",
    "  if (typeof value === \"number\") return value;",
    "  return Gtk.Orientation.HORIZONTAL;",
    "\x7d",
    "",
    "function $resolve_align(value) \x7b",
    "  const Gtk = imports.gi.Gtk;",
    "  if (typeof value === \"number\") return value;",
    "  switch (String(value).toLowerCase()) \x7b",
    "    case \"start\":",
    "      return Gtk.Align.START;",
    "    case \"end\":",
    "      return Gtk.Align.END;",
    "    case \"center\":",
    "      return Gtk.Align.CENTER;",
    "    default:",
    "      return Gtk.Align.FILL;",
    "  \x7d",
    "\x7d",
    "",
    "function $resolve_css_classes(value) \x7b",
    "  if (Array.isArray(value)) return value.filter(Boolean);",
    "  if (typeof value === \"string\") return value.trim().split(/\\s+/).filter(Boolean);",
    "  return [];",
    "\x7d",
    "",
    "this.$state = $state;",
    "this.$get = $get;",
    "this.$set = $set;",
    "this.$effect = $effect;",
    "this.$derived = $derived;",
    "this.$notify = $notify;",
    "this.$prop = $prop;",
    "this.$resolve_orientation = $resolve_orientation;",
    "this.$resolve_align = $resolve_align;",
    "this.$resolve_css_classes = $resolve_css_classes;"]

def supportText : String :=
  String.join (supportLines.map (· ++ "\n"))

end WidgetCompiler
