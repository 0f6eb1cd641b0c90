/-
The theme that the studio starts with.
-/
import ScriptWorkbench.Studio.Theme

namespace ScriptWorkbench.Studio.Standard

/-! ## Colours -/

def palette : List (String × String) :=
  [("comment", "#6A9955"), ("comment_hash", "#00B050"), ("comment_slash", "#808080"),
   ("keyword", "#569CD6"), ("string", "#CE9178"), ("number", "#B5CEA8"), ("function", "#DCDCAA"),
   ("variable", "#9CDCFE"), ("type", "#4EC9B0"), ("operator", "#D4D4D4"),
   ("namespace", "#9CDCFE"), ("builtin", "#4EC9B0"), ("identifier", "#D4D4D4"),
   ("punctuation", "#D4D4D4"), ("default", "#D4D4D4")]

/-! ## Languages -/

def script : Language where
  rules := [
    ⟨"#[^\\n]*", "comment_hash", ""⟩,
    ⟨"\\b(func|main|let|set|return|if|else|for|in|and|or|not|true|false|cls|clear)\\b",
      "keyword", "bold"⟩,
    ⟨"\\b(gfx|py|js|css|c|cpp|cs)\\.", "namespace", "bold"⟩,
    ⟨"(gfx|py|js|css|c|cpp|cs)\\.(setup_canvas|draw_circle|draw_rect|draw_point|draw_line|update_screen|get_random_color|print|input|log|alert|confirm|printf|scanf|cout|cin|write_line|read_line|set|clear)",
      "function", "bold"⟩,
    ⟨"\\\"(?:\\\\.|[^\\\"])*\\\"", "string", ""⟩,
    ⟨"'(?:\\\\.|[^'])*'", "string", ""⟩,
    ⟨"\\b\\d+(?:\\.\\d+)?\\b", "number", ""⟩,
    ⟨"\\b[a-zA-Z_][a-zA-Z0-9_]*(?=\\()", "function", "bold"⟩,
    ⟨"\\\x7b", "punctuation", ""⟩,
    ⟨"\\\x7d", "punctuation", ""⟩,
    ⟨"\\[", "punctuation", ""⟩,
    ⟨"\\]", "punctuation", ""⟩,
    ⟨"\\(", "punctuation", ""⟩,
    ⟨"\\)", "punctuation", ""⟩,
    ⟨"[;:,.]", "punctuation", ""⟩,
    ⟨"[+\\-*/%=<>!&|^~]", "operator", ""⟩,
    ⟨"\\b[a-zA-Z_][a-zA-Z0-9_]*\\b", "variable", ""⟩]
  completions :=
    ["func", "main", "let", "set", "return", "if", "else", "for", "in", "and", "or", "not",
     "true", "false", "cls", "clear", "py.print", "py.input", "py.random.randint", "js.log",
     "js.alert", "js.confirm", "c.printf", "c.scanf", "cpp.cout", "cpp.cin", "cs.write_line",
     "cs.read_line", "css.set", "gfx.setup_canvas", "gfx.draw_circle", "gfx.draw_rect",
     "gfx.draw_point", "gfx.draw_line", "gfx.update_screen", "gfx.get_random_color", "to_string",
     "to_number", "gfx.clear"]
  command := some "\x7bpython_executable\x7d -m prisma run \x7bfile\x7d"

def python : Language where
  rules := [
    ⟨"#[^\\n]*", "comment_hash", ""⟩,
    ⟨"\\b(def|class|if|elif|else|for|while|try|except|finally|with|import|from|return|yield|lambda|async|await|None|True|False|and|or|not|in|is)\\b",
      "keyword", "bold"⟩,
    ⟨"\\b([A-Z][A-Z0-9_]*)\\b", "constant", ""⟩,
    ⟨"\\\"\\\"\\\"[\\s\\S]*?\\\"\\\"\\\"", "string", ""⟩,
    ⟨"\\\"(?:\\\\.|[^\\\"])*\\\"", "string", ""⟩,
    ⟨"'(?:\\\\.|[^'])*'", "string", ""⟩,
    ⟨"\\b\\d+(?:\\.\\d+)?\\b", "number", ""⟩,
    ⟨"\\b[a-zA-Z_][a-zA-Z0-9_]*(?=\\()", "function", "bold"⟩,
    ⟨"\\\x7b", "punctuation", ""⟩,
    ⟨"\\\x7d", "punctuation", ""⟩,
    ⟨"\\[", "punctuation", ""⟩,
    ⟨"\\]", "punctuation", ""⟩,
    ⟨"\\(", "punctuation", ""⟩,
    ⟨"\\)", "punctuation", ""⟩,
    ⟨"[;:,.]", "punctuation", ""⟩,
    ⟨"[+\\-*/%=<>!&|^~]", "operator", ""⟩,
    ⟨"\\b[a-zA-Z_][a-zA-Z0-9_]*\\b", "variable", ""⟩]
  completions :=
    ["def", "class", "if", "elif", "else", "for", "while", "import", "from", "return", "True",
     "False", "None", "print", "len", "range", "enumerate", "zip", "map", "filter", "lambda"]
  command := some "\x7bpython_executable\x7d \x7bfile\x7d"

def javascript : Language where
  rules := [
    ⟨"//[^\\n]*", "comment_slash", ""⟩,
    ⟨"/\\*[\\s\\S]*?\\*/", "comment_slash", ""⟩,
    ⟨"\\b(function|const|let|var|if|else|for|while|do|switch|case|default|return|break|continue|try|catch|finally|throw|new|typeof|instanceof|class|extends|import|export|async|await|yield|true|false|null|undefined)\\b",
      "keyword", "bold"⟩,
    ⟨"\\\"(?:\\\\.|[^\\\"])*\\\"", "string", ""⟩,
    ⟨"'(?:\\\\.|[^'])*'", "string", ""⟩,
    ⟨"`(?:\\\\.|[^`])*`", "string", ""⟩,
    ⟨"\\b\\d+(?:\\.\\d+)?\\b", "number", ""⟩,
    ⟨"\\b[a-zA-Z_$][a-zA-Z0-9_$]*(?=\\()", "function", "bold"⟩,
    ⟨"\\\x7b", "punctuation", ""⟩,
    ⟨"\\\x7d", "punctuation", ""⟩,
    ⟨"\\[", "punctuation", ""⟩,
    ⟨"\\]", "punctuation", ""⟩,
    ⟨"\\(", "punctuation", ""⟩,
    ⟨"\\)", "punctuation", ""⟩,
    ⟨"[;:,.]", "punctuation", ""⟩,
    ⟨"[+\\-*/%=<>!&|^~?:]", "operator", ""⟩,
    ⟨"\\b[a-zA-Z_$][a-zA-Z0-9_$]*\\b", "variable", ""⟩]
  completions :=
    ["function", "const", "let", "var", "if", "else", "for", "while", "return", "console.log",
     "document", "window", "true", "false", "null", "undefined", "async", "await", "import",
     "export"]
  command := some "node \x7bfile\x7d"

def text : Language where
  rules := [
    ⟨".*", "default", ""⟩]
  completions :=
    []
  command := none

def unknown : Language where
  rules := [
    ⟨".*", "default", ""⟩]
  completions :=
    []
  command := none

/-! ## Snippets -/

def scriptSnippets : SnippetTable := [
    ("main", ⟨"main \x7b\n    $0\n\x7d", "Bloque principal del programa"⟩),
    ("func", ⟨"func $1($2) \x7b\n    $0\n\x7d", "Declarar una función"⟩),
    ("if", ⟨"if $1 \x7b\n    $0\n\x7d", "Condicional if"⟩),
    ("ifelse", ⟨"if $1 \x7b\n    $0\n\x7d else \x7b\n    \n\x7d", "Condicional if-else"⟩),
    ("for", ⟨"for $1 in $2 \x7b\n    $0\n\x7d", "Bucle for en colección"⟩),
    ("let", ⟨"let $1 = $0;", "Declarar variable"⟩),
    ("set", ⟨"set $1 = $0;", "Asignar valor a variable"⟩),
    ("return", ⟨"return $0;", "Retornar valor"⟩),
    ("print", ⟨"py.print($0);", "Imprimir en consola"⟩),
    ("input", ⟨"py.input($0);", "Leer entrada del usuario"⟩)]

def pythonSnippets : SnippetTable := [
    ("def", ⟨"def $1($2):\n    $0", "Definir función"⟩),
    ("class", ⟨"class $1:\n    def __init__(self):\n        $0", "Definir clase"⟩),
    ("if", ⟨"if $1:\n    $0", "Condicional if"⟩),
    ("for", ⟨"for $1 in $2:\n    $0", "Bucle for"⟩),
    ("while", ⟨"while $1:\n    $0", "Bucle while"⟩),
    ("try", ⟨"try:\n    $0\nexcept Exception as e:\n    print(e)", "Try-except"⟩),
    ("import", ⟨"import $0", "Importar módulo"⟩),
    ("from", ⟨"from $1 import $0", "Importar desde módulo"⟩)]

def javascriptSnippets : SnippetTable := [
    ("function", ⟨"function $1($2) \x7b\n    $0\n\x7d", "Definir función"⟩),
    ("const", ⟨"const $1 = $0;", "Constante"⟩),
    ("let", ⟨"let $1 = $0;", "Variable local"⟩),
    ("if", ⟨"if ($1) \x7b\n    $0\n\x7d", "Condicional if"⟩),
    ("for", ⟨"for (let $1 = 0; $1 < $2; $1++) \x7b\n    $0\n\x7d", "Bucle for"⟩),
    ("arrow", ⟨"const $1 = ($2) => \x7b\n    $0\n\x7d;", "Función flecha"⟩),
    ("class", ⟨"class $1 \x7b\n    constructor() \x7b\n        $0\n    \x7d\n\x7d",
      "Definir clase"⟩),
    ("async", ⟨"async function $1($2) \x7b\n    $0\n\x7d", "Función asíncrona"⟩)]

end Standard

def Theme.standard : Theme where
  palette := Standard.palette
  languages :=
    [("opn", Standard.script), ("python", Standard.python), ("javascript", Standard.javascript),
     ("text", Standard.text), ("default", Standard.unknown)]
  extensions :=
    [("opn", "opn"), ("opn4", "opn"), ("prisma", "opn"), ("py", "python"), ("js", "javascript"),
     ("jsx", "javascript"), ("ts", "javascript"), ("tsx", "javascript"), ("txt", "text")]
  fallback := "opn"
  snippets :=
    [("opn", Standard.scriptSnippets), ("python", Standard.pythonSnippets),
     ("javascript", Standard.javascriptSnippets), ("default", [])]

end ScriptWorkbench.Studio
