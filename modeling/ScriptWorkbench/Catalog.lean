/-
The words, functions and colours that the tools know about.

The tables serve completion, documentation and display; none of them bears on what the scanner and
the parser accept. Their order is the order in which they are shown.
-/

set_option autoImplicit false

namespace ScriptWorkbench.Catalog

/-- What is shown for a word of the language. -/
structure Help where
  signature : String
  description : String
  usage : String
deriving Repr, DecidableEq

def keywords : List String :=
  ["if", "else", "elif", "while", "for", "in", "break", "continue", "def", "return", "class",
   "import", "from", "as", "try", "except", "finally", "with", "lambda", "yield", "pass", "raise",
   "assert", "global", "nonlocal", "del", "and", "or", "not", "is", "None", "True", "False", "var",
   "let", "const", "function", "async", "await"]

def operators : List String :=
  ["+", "-", "*", "/", "//", "%", "**", "==", "!=", "<", ">", "<=", ">=", "=", "+=", "-=", "*=",
   "/=", "//=", "%=", "**=", "&", "|", "^", "~", "<<", ">>", "and", "or", "not", "(", ")", "[", "]",
   "\x7b", "\x7d", ",", ":", ";", ".", "->", "=>"]

def builtins : List (String × Help) :=
  [("print",
    ⟨"print(*args, sep=' ', end='\\n')",
     "Imprime valores en la consola",
     "print('Hola', 'Mundo')"⟩),
   ("input",
    ⟨"input(prompt='')",
     "Lee entrada del usuario",
     "nombre = input('Tu nombre: ')"⟩),
   ("len",
    ⟨"len(obj)",
     "Retorna la longitud de un objeto",
     "len([1, 2, 3])  # 3"⟩),
   ("range",
    ⟨"range(start, stop, step=1)",
     "Genera una secuencia de números",
     "for i in range(10): print(i)"⟩),
   ("int",
    ⟨"int(x, base=10)",
     "Convierte a entero",
     "int('42')  # 42"⟩),
   ("float",
    ⟨"float(x)",
     "Convierte a flotante",
     "float('3.14')  # 3.14"⟩),
   ("str",
    ⟨"str(obj)",
     "Convierte a cadena",
     "str(42)  # '42'"⟩),
   ("list",
    ⟨"list(iterable)",
     "Crea una lista",
     "list(range(5))  # [0,1,2,3,4]"⟩),
   ("dict",
    ⟨"dict(**kwargs)",
     "Crea un diccionario",
     "dict(a=1, b=2)"⟩),
   ("open",
    ⟨"open(file, mode='r')",
     "Abre un archivo",
     "with open('file.txt') as f: data = f.read()"⟩),
   ("abs",
    ⟨"abs(x)",
     "Valor absoluto",
     "abs(-5)  # 5"⟩),
   ("min",
    ⟨"min(*args)",
     "Retorna el mínimo",
     "min(1, 2, 3)  # 1"⟩),
   ("max",
    ⟨"max(*args)",
     "Retorna el máximo",
     "max(1, 2, 3)  # 3"⟩),
   ("sum",
    ⟨"sum(iterable, start=0)",
     "Suma elementos",
     "sum([1, 2, 3])  # 6"⟩),
   ("sorted",
    ⟨"sorted(iterable, reverse=False)",
     "Retorna lista ordenada",
     "sorted([3, 1, 2])  # [1,2,3]"⟩),
   ("enumerate",
    ⟨"enumerate(iterable, start=0)",
     "Enumera elementos",
     "for i, v in enumerate(['a','b']): print(i, v)"⟩),
   ("zip",
    ⟨"zip(*iterables)",
     "Combina iterables",
     "list(zip([1,2], ['a','b']))  # [(1,'a'),(2,'b')]"⟩),
   ("map",
    ⟨"map(function, iterable)",
     "Aplica función a elementos",
     "list(map(str, [1,2,3]))  # ['1','2','3']"⟩),
   ("filter",
    ⟨"filter(function, iterable)",
     "Filtra elementos",
     "list(filter(lambda x: x>0, [-1,0,1]))  # [1]"⟩)]

def drawingFunctions : List (String × Help) :=
  [("gfx.setup_canvas",
    ⟨"gfx.setup_canvas(width, height, title='OPN Graphics')",
     "Configura el canvas de gráficos",
     "gfx.setup_canvas(800, 600, 'Mi Juego')"⟩),
   ("gfx.draw_point",
    ⟨"gfx.draw_point(x, y, color, size=1)",
     "Dibuja un punto en el canvas",
     "gfx.draw_point(100, 100, gfx.Rojo, 5)"⟩),
   ("gfx.draw_circle",
    ⟨"gfx.draw_circle(x, y, radius, color, filled=True)",
     "Dibuja un círculo",
     "gfx.draw_circle(200, 200, 50, gfx.Azul)"⟩),
   ("gfx.update_screen",
    ⟨"gfx.update_screen()",
     "Actualiza la pantalla",
     "gfx.update_screen()"⟩),
   ("gfx.init",
    ⟨"gfx.init()",
     "Inicia el loop de gráficos",
     "gfx.init()"⟩),
   ("gfx.quit",
    ⟨"gfx.quit()",
     "Cierra la ventana de gráficos",
     "gfx.quit()"⟩)]

def drawingColors : List String :=
  ["gfx.Rojo", "gfx.Verde", "gfx.Azul", "gfx.Amarillo", "gfx.Púrpura", "gfx.Cian", "gfx.Blanco",
   "gfx.Negro"]

def callAliases : List (String × String) :=
  [("c.printf", "c_printf"), ("cpp.cout", "cpp_cout"), ("cs.write_line", "cs_write_line"),
   ("py.print", "py_print"), ("py.breakpoint", "py_breakpoint"), ("py.input", "py_input"),
   ("py.random.randint", "py_random_randint"), ("css.set", "css_set"), ("str.length", "len"),
   ("str.charAt", "lambda s, i: s[i]"), ("js.log", "js_log"),
   ("gfx.setup_canvas", "gfx.setup_canvas"), ("gfx.draw_point", "gfx.draw_point"),
   ("gfx.draw_circle", "gfx.draw_circle"), ("gfx.update_screen", "gfx.update_screen"),
   ("gfx.init", "gfx.init"), ("gfx.quit", "gfx.quit"), ("math.sqrt", "math.sqrt"),
   ("math.pow", "math.pow"), ("math.sin", "math.sin"), ("math.cos", "math.cos"),
   ("math.tan", "math.tan"), ("math.floor", "math.floor"), ("math.ceil", "math.ceil"),
   ("math.abs", "abs"), ("time.sleep", "time.sleep"), ("time.time", "time.time")]

def typeAliases : List (String × String) :=
  [("int", "int"), ("float", "float"), ("str", "str"), ("bool", "bool"), ("list", "list"),
   ("dict", "dict"), ("tuple", "tuple"), ("set", "set"), ("any", "Any"), ("void", "None")]

def syntaxColors : List (String × String) :=
  [("keyword", "#569CD6"), ("string", "#CE9178"), ("comment", "#6A9955"), ("number", "#B5CEA8"),
   ("function", "#DCDCAA"), ("class", "#4EC9B0"), ("operator", "#D4D4D4"), ("builtin", "#4FC1FF"),
   ("variable", "#9CDCFE"), ("error", "#F44747"), ("warning", "#CCA700")]

def themeColors : List (String × List (String × String)) :=
  [("dark",
    [("background", "#1E1E1E"), ("foreground", "#D4D4D4"), ("selection", "#264F78"),
     ("line_number", "#858585"), ("current_line", "#2A2A2A"), ("cursor", "#AEAFAD")]),
   ("light",
    [("background", "#FFFFFF"), ("foreground", "#000000"), ("selection", "#ADD6FF"),
     ("line_number", "#237893"), ("current_line", "#F0F0F0"), ("cursor", "#000000")])]

end ScriptWorkbench.Catalog
