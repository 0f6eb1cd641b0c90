/-
Reading the words of a command line.

A command has flags, which start with a dash and may take a value, and operands, which are known by their
place. A word that names a command of its own hands all words after it to that command.
-/
import ScriptWorkbench.Pattern.Matching
import ScriptWorkbench.Pattern.Reader

namespace ScriptWorkbench.CommandLine

/-! ## Commands -/

/-- A word with dashes and what it sets. -/
structure Flag where
  names : List String
  field : String
  takesValue : Bool
  required : Bool
  helps : Bool
deriving Repr, DecidableEq

/-- How many words an operand takes. -/
inductive Arity where
  | one
  | atMostOne
  | command
deriving Repr, DecidableEq

/-- An operand. If there are choices, its value must be one of them. An operand that may be left out
comes last. -/
structure Operand where
  name : String
  arity : Arity
  choices : List String
deriving Repr, DecidableEq

/-- What a command takes, with the commands below it. -/
structure Spec where
  program : String
  flags : List Flag
  operands : List Operand
  commands : List (String × Spec)
deriving Inhabited

/-- What is known of a field. -/
inductive Value where
  | text (text : String)
  | given
  | omitted
  | void
deriving Repr, DecidableEq

/-- The fields that were set. -/
abbrev Values := List (String × Value)

/-! ## Refusals -/

/-- What is wrong with the words. -/
inductive Fault where
  | expectedOne (argument : String)
  | ignoredValue (argument value : String)
  | invalidChoice (argument value : String) (choices : List String)
  | ambiguous (word : String) (names : List String)
  | missing (names : List String)
  | unrecognized (words : List String)
deriving Repr, DecidableEq

def Fault.message : Fault → String
  | .expectedOne argument => s!"argument {argument}: expected one argument"
  | .ignoredValue argument value =>
    s!"argument {argument}: ignored explicit argument " ++ Text.quote value
  | .invalidChoice argument value choices =>
    s!"argument {argument}: invalid choice: " ++ Text.quote value ++ " (choose from " ++
      ", ".intercalate (choices.map Text.quote) ++ ")"
  | .ambiguous word names =>
    s!"ambiguous option: {word} could match " ++ ", ".intercalate names
  | .missing names => "the following arguments are required: " ++ ", ".intercalate names
  | .unrecognized words => "unrecognized arguments: " ++ " ".intercalate words

/-- Why no command is run. -/
inductive Refusal where
  | usage (program : String) (fault : Fault)
  | help
deriving Repr, DecidableEq

def usageLine (program : String) (fault : Fault) : String :=
  s!"{program}: error: {fault.message}"

/-! ## Flags -/

def Flag.title (f : Flag) : String :=
  "/".intercalate f.names

/-- A word read as a flag, with a value that is written in the same word. Without a flag it only looks
like one. -/
structure Reading where
  flag : Option Flag
  name : String
  attached : Option String
deriving Repr, DecidableEq

def Spec.named (s : Spec) : List (String × Flag) :=
  s.flags.flatMap fun f => f.names.map fun n => (n, f)

def Spec.flag? (s : Spec) (name : String) : Option Flag :=
  s.named.lookup name

def splitEquals (word : String) : String × Option String :=
  let cs := word.toList
  match cs.dropWhile (· != '=') with
  | [] => (word, none)
  | _ :: value => (String.ofList (cs.takeWhile (· != '=')), some (String.ofList value))

/-- Long flags may be shortened as far as they stay unique. -/
def Spec.shortened (s : Spec) (word : String) : List Reading :=
  if Text.startsWith word "--" then
    let (start, attached) := splitEquals word
    s.named.filterMap fun (n, f) =>
      if Text.startsWith n start then some ⟨some f, n, attached⟩ else none
  else
    let short := String.ofList (word.toList.take 2)
    s.named.filterMap fun (n, f) =>
      if n == short then some ⟨some f, n, some (String.ofList (word.toList.drop 2))⟩
      else if Text.startsWith n word then some ⟨some f, n, none⟩
      else none

def isNegativeNumber (word : String) : Bool :=
  match Pattern.read .empty .none "^-\\d+$|^-\\d*\\.\\d+$".toList with
  | .ok p => (p.find? word.toList).isSome
  | .error _ => false

/-- A value follows as the next word, after an equals sign, or directly after a short flag. -/
def Spec.readFlag (s : Spec) (word : String) : Except Fault (Option Reading) :=
  if !Text.startsWith word "-" then .ok none
  else if let some f := s.flag? word then .ok (some ⟨some f, word, none⟩)
  else if word.length = 1 then .ok none
  else
    let (start, attached) := splitEquals word
    match attached.bind fun _ => s.flag? start with
    | some f => .ok (some ⟨some f, start, attached⟩)
    | none =>
      match s.shortened word with
      | [r] => .ok (some r)
      | [] =>
        if isNegativeNumber word || word.toList.contains ' ' then .ok none
        else .ok (some ⟨none, word, none⟩)
      | several => .error (.ambiguous word (several.map (·.name)))

/-! ## Words -/

/-- What a word is taken for. -/
inductive Mark where
  | plain
  | dashes
  | flag (reading : Reading)
deriving Repr, DecidableEq

/-- A word with what it is taken for. -/
abbrev Word := String × Mark

/-- After two dashes every word is an operand. -/
def Spec.mark (s : Spec) : List String → Except Fault (List Word)
  | [] => .ok []
  | w :: rest =>
    if w == "--" then .ok ((w, .dashes) :: rest.map fun r => (r, .plain))
    else do
      let here ← s.readFlag w
      let others ← s.mark rest
      return ((w, (here.map Mark.flag).getD .plain) :: others)

def Mark.isFlag : Mark → Bool
  | .flag _ => true
  | _ => false

/-! ## Taking flags -/

/-- Flags that were taken, and how many words were used for them. -/
structure Taken where
  flags : List (Flag × Option String)
  used : Nat
deriving Repr

def Taken.before (f : Flag) (t : Taken) : Taken :=
  { t with flags := (f, none) :: t.flags }

def Spec.takeFlags (s : Spec) (following : List Word) :
    (budget : Nat) → Flag → (name : String) → Option String → Except Fault Taken
  | 0, f, _, _ => .error (.expectedOne f.title)
  | budget + 1, f, name, some value =>
    if f.takesValue then .ok ⟨[(f, some value)], 0⟩
    else
      let next := String.ofList ('-' :: value.toList.take 1)
      match if Text.startsWith name "--" then none else s.flag? next with
      | none => .error (.ignoredValue f.title value)
      | some g =>
        let rest := if value.length = 1 then none else some (String.ofList (value.toList.drop 1))
        (s.takeFlags following budget g next rest).map (·.before f)
  | _ + 1, f, _, none =>
    if f.takesValue then
      match following with
      | (w, .plain) :: _ => .ok ⟨[(f, some w)], 1⟩
      | _ => .error (.expectedOne f.title)
    else .ok ⟨[(f, none)], 0⟩

/-! ## Taking operands -/

def Arity.count? (words : List Word) : Arity → Option Nat
  | .one => afterDashes words fun
    | (_, .plain) :: rest => some (1 + dashes rest)
    | _ => none
  | .atMostOne => afterDashes words fun
    | (_, .plain) :: rest => some (1 + dashes rest)
    | _ => some 0
  | .command => afterDashes words fun
    | (_, .plain) :: rest => some (1 + rest.length)
    | _ => none
where
  dashes (ws : List Word) : Nat := (ws.takeWhile (·.2 == .dashes)).length
  afterDashes (ws : List Word) (f : List Word → Option Nat) : Option Nat :=
    (f (ws.drop (dashes ws))).map (dashes ws + ·)

def Operand.value (o : Operand) (words : List String) : Except Fault Value :=
  match words.erase "--" with
  | [] => .ok (if o.arity = .atMostOne then .omitted else .void)
  | w :: _ =>
    if o.choices.isEmpty || o.choices.contains w then .ok (.text w)
    else .error (.invalidChoice o.name w o.choices)

/-! ## Reading a command line -/

/-- How far the words have been read. -/
structure Progress where
  values : Values
  extra : List String
  below : List String
  operands : List Operand
  seen : List String

def Progress.note (p : Progress) : Flag × Option String → Except Refusal Progress
  | (f, value) =>
    if f.helps then .error .help
    else
      let v := match value with
        | some text => Value.text text
        | none => .given
      .ok { p with values := (f.field, v) :: p.values, seen := f.title :: p.seen }

def Progress.noteAll (p : Progress) : List (Flag × Option String) → Except Refusal Progress
  | [] => .ok p
  | f :: rest => do (← p.note f).noteAll rest

def Spec.absent (s : Spec) (p : Progress) : List String :=
  ((s.operands.filter fun o => o.arity == .one && !p.seen.contains o.name).map (·.name)) ++
    (s.flags.filter fun f => f.required && !p.seen.contains f.title).map (·.title)

def Spec.enter (s : Spec) (o : Operand) (inner : Spec → List String → Except Refusal (Values × List String))
    (words : List String) (p : Progress) : Except Refusal Progress :=
  match words with
  | [] => .ok p
  | name :: rest =>
    match s.commands.lookup name with
    | none => .error (.usage s.program (.invalidChoice o.name name (s.commands.map (·.1))))
    | some command => do
      let (values, below) ← inner command rest
      return { p with
        values := values ++ (o.name, .text name) :: p.values, below := p.below ++ below,
        seen := o.name :: p.seen }

def Spec.takeOperands (s : Spec) (inner : Spec → List String → Except Refusal (Values × List String))
    (words : List Word) (p : Progress) : List Operand → Except Refusal (List Word × Progress)
  | [] => .ok (words, { p with operands := [] })
  | o :: rest =>
    match o.arity.count? words with
    | none => .ok (words, { p with operands := o :: rest })
    | some n => do
      let taken := (words.take n).map (·.1)
      let p ← if o.arity = .command then s.enter o inner taken p
        else match o.value taken with
          | .error e => .error (.usage s.program e)
          | .ok v => .ok { p with values := (o.name, v) :: p.values, seen := o.name :: p.seen }
      s.takeOperands inner (words.drop n) p rest

def Spec.readWords (s : Spec) (inner : Spec → List String → Except Refusal (Values × List String)) :
    (budget : Nat) → List Word → Progress → Except Refusal Progress
  | 0, words, p => .ok { p with extra := p.extra ++ words.map (·.1) }
  | budget + 1, words, p =>
    if !words.any (·.2.isFlag) then do
      let (left, p) ← s.takeOperands inner words p p.operands
      return { p with extra := p.extra ++ left.map (·.1) }
    else
      match words with
      | (word, .flag r) :: rest =>
        match r.flag with
        | none => s.readWords inner budget rest { p with extra := p.extra ++ [word] }
        | some f =>
          match s.takeFlags rest (word.length + 1) f r.name r.attached with
          | .error e => .error (.usage s.program e)
          | .ok taken => do
            s.readWords inner budget (rest.drop taken.used) (← p.noteAll taken.flags)
      | _ => do
        let (left, p) ← s.takeOperands inner words p p.operands
        if left.length < words.length then s.readWords inner budget left p
        else
          let skipped := words.takeWhile fun w => !w.2.isFlag
          s.readWords inner budget (words.drop skipped.length)
            { p with extra := p.extra ++ skipped.map (·.1) }

/-- Read the words of a command; the values, and the words that nothing was made of. Commands may lie
in commands as deep as `depth` says. -/
def Spec.readKnown (depth : Nat) (s : Spec) (words : List String) :
    Except Refusal (Values × List String) :=
  match depth with
  | 0 => .ok ([], words)
  | depth + 1 =>
    match s.mark words with
    | .error e => .error (.usage s.program e)
    | .ok marked => do
      let p ← s.readWords (fun t ws => t.readKnown depth ws) (2 * marked.length + 1) marked
        ⟨[], [], [], s.operands, []⟩
      match s.absent p with
      | [] => return (p.values, p.extra ++ p.below)
      | names => .error (.usage s.program (.missing names))

def maxDepth : Nat := 4

/-- Words that nothing is made of are refused in the end by the outermost command. -/
def Spec.read (s : Spec) (words : List String) : Except Refusal Values := do
  let (values, extra) ← s.readKnown maxDepth words
  if extra.isEmpty then return values
  else .error (.usage s.program (.unrecognized extra))

end ScriptWorkbench.CommandLine
