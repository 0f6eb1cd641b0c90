/-
The text that every generated program starts with.
-/

set_option autoImplicit false

namespace ScriptWorkbench.Target

def preambleLines : List String :=
  ["",
   "import time",
   "import random",
   "",
   "_PROFILING_DATA = \x7b\x7d",
   "",
   "def profiler(func):",
   "    \"\"\"A simple decorator to profile function execution time.\"\"\"",
   "    def wrapper(*args, **kwargs):",
   "        start_time = time.perf_counter()",
   "        result = func(*args, **kwargs)",
   "        end_time = time.perf_counter()",
   "        duration = (end_time - start_time) * 1000  # in ms",
   "",
   "        # Store cumulative time",
   "        _PROFILING_DATA[func.__name__] = _PROFILING_DATA.get(func.__name__, 0) + duration",
   "",
   "        print(f\"[PROFILE] \x7bfunc.__name__\x7d executed in \x7bduration:.4f\x7d ms\")",
   "        return result",
   "    return wrapper",
   "",
   "def c_printf(format_string, *values):",
   "    print(format_string % values)",
   "",
   "",
   "def cpp_cout(value):",
   "    print(value)",
   "",
   "",
   "def cs_write_line(value):",
   "    print(value)",
   "",
   "",
   "def py_print(*values):",
   "    print(*values)",
   "",
   "",
   "def py_breakpoint():",
   "    breakpoint()",
   "",
   "",
   "def py_input(prompt=\"\"):",
   "    return input(prompt)",
   "",
   "",
   "def py_random_randint(a, b):",
   "    return random.randint(a, b)",
   "",
   "",
   "def css_set(selector, prop, value):",
   "    rule = f\"\x7bselector\x7d \x7b\x7b \x7bprop\x7d: \x7bvalue\x7d; \x7d\x7d\"",
   "    _styles.append(rule)",
   "    print(f\"css: \x7brule\x7d\")",
   "",
   "",
   "def js_log(value):",
   "    print(f\"js: \x7bvalue\x7d\")",
   "",
   "",
   "def to_string(value):",
   "    return str(value)",
   "",
   "",
   "def to_number(value):",
   "    try:",
   "        return int(value)",
   "    except ValueError:",
   "        return float(value)",
   "    except TypeError:",
   "        raise ValueError(\"Cannot convert value to number\")",
   "    except Exception as exc:",
   "        raise ValueError(\"Cannot convert value to number\") from exc"]

def preamble : String :=
  "\n".intercalate preambleLines

/-- What follows the last line of the beginning where it is shown in full: a line of blanks that the
generated program does without. -/
def preambleTail : String :=
  "\n"

end ScriptWorkbench.Target
