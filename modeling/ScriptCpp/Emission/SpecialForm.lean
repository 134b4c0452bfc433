import ScriptCpp.Emission.Features
import ScriptCpp.Emission.Piece

set_option autoImplicit false

namespace ScriptCpp

structure CallSite where
  callee : Expr
  args : List Expr

namespace CallSite

def function? (site : CallSite) : Option String := site.callee.name?

def method? (site : CallSite) : Option String := site.callee.memberName?

def receiver? (site : CallSite) : Option Expr :=
  match site.callee with
  | .member object _ => some object
  | .index object _ => some object
  | _ => none

def isFunction (site : CallSite) (names : List String) : Bool :=
  site.function?.any names.contains

def isMethod (site : CallSite) (names : List String) : Bool :=
  site.method?.any names.contains

def isNamespaced (site : CallSite) (space : String) : Bool :=
  site.receiver?.any (·.isName space)

def methodText (site : CallSite) : String := site.method?.getD ""

end CallSite

-- The part of a callee that a form writes before its arguments.
inductive FormHead where
  | none
  | callee
  | receiver
deriving DecidableEq, Repr

-- A look into the arguments of a call: at one place, at one place that may be empty, at the first ones,
-- or at all of them.
inductive Reading where
  | one (place : Nat)
  | ifAny (place : Nat)
  | first (count : Nat)
  | all
deriving DecidableEq, Repr

namespace Reading

def least : Reading → Nat
  | .one place => place + 1
  | .first count => count
  | .ifAny _ | .all => 0

def taken {α : Type} (args : List α) : Reading → List α
  | .one place | .ifAny place => args[place]?.toList
  | .first count => args.take count
  | .all => args

def pick {α : Type} (args : List α) (reading : Reading) : Except EmitError (List α) :=
  if reading.least ≤ args.length then .ok (reading.taken args)
  else .error (.missingArgument args.length)

end Reading

-- `write` puts together the text of the head and the texts of the arguments that were read.
structure SpecialForm where
  name : String
  minArgs : Nat
  trigger : Features → CallSite → Bool
  head : FormHead
  reads : List Reading
  write : CallSite → Piece → List Piece → String

namespace SpecialForm

def texts (pieces : List Piece) : List String := pieces.map Piece.text

def helperCall (helper : String) (receiver : Piece) (args : List Piece) : String :=
  helper ++ "(" ++ commas (receiver.text :: texts args) ++ ")"

def helperForm (name : String) (minArgs : Nat) (trigger : Features → CallSite → Bool)
    (helper : CallSite → String) (arity : Nat) : SpecialForm where
  name := name
  minArgs := minArgs
  trigger := trigger
  head := .receiver
  reads := [.first arity]
  write := fun site receiver args => helperCall (helper site) receiver args

def namedHelper (site : CallSite) : String := "_riri_" ++ site.methodText

def valueCall (site : CallSite) (receiver : Piece) (args : List Piece) : String :=
  receiver.grouped ++ "." ++ site.methodText ++ "(" ++ commas (texts args) ++ ")"

def capitalize (word : String) : String :=
  match word.toList with
  | [] => ""
  | c :: rest => String.ofList (c.toUpper :: rest)

def conversion (site : CallSite) : String :=
  if site.function? = some "string" then "std::to_string"
  else if site.function? = some "int" then "std::stoi"
  else "std::stod"

def mimeType (site : CallSite) : String :=
  if site.method? = some "json" then "application/json" else "text/plain"

def mathForms : List SpecialForm :=
  [{ name := "Math.random"
     minArgs := 0
     trigger := fun _ site => site.isNamespaced "Math" && site.isMethod ["random"]
     head := .none
     reads := []
     write := fun _ _ _ => "((double)std::rand() / (RAND_MAX))" },
   { name := "Math.*"
     minArgs := 0
     trigger := fun _ site => site.isNamespaced "Math"
     head := .none
     reads := [.all]
     write := fun site _ args => "std::" ++ site.methodText ++ "(" ++ commas (texts args) ++ ")" }]

def consoleForms : List SpecialForm :=
  [{ name := "print"
     minArgs := 0
     trigger := fun _ site => site.isFunction ["print"]
     head := .none
     reads := [.all]
     write := fun _ _ args =>
       if args.isEmpty then "std::cout << std::endl"
       else
         "std::cout << " ++ " << \" \" << ".intercalate (args.map Piece.grouped) ++
           " << std::endl" },
   { name := "input"
     minArgs := 0
     trigger := fun _ site => site.isFunction ["input"]
     head := .none
     reads := []
     write := fun _ _ _ => "_riri_input()" },
   { name := "console.table"
     minArgs := 1
     trigger := fun _ site =>
       site.isFunction ["tprint"] || (site.isNamespaced "console" && site.isMethod ["table"])
     head := .none
     reads := [.all]
     write := fun _ _ args => "_riri_tprint(" ++ commas (texts args) ++ ")" }]

def dialogForms : List SpecialForm :=
  [{ name := "createList"
     minArgs := 0
     trigger := fun features site => features.gui && site.isFunction ["createList"]
     head := .none
     reads := []
     write := fun _ _ _ => "_riri_create_list()" },
   { name := "msgBox"
     minArgs := 1
     trigger := fun features site => features.gui && site.isFunction ["msgBox"]
     head := .none
     reads := [.one 0]
     write := fun _ _ args => "_riri_msg_box(" ++ commas (texts args) ++ ")" }]

def plainForms : List SpecialForm :=
  [{ name := "sort"
     minArgs := 1
     trigger := fun _ site => site.isFunction ["sort"]
     head := .none
     reads := [.one 0]
     write := fun _ _ args =>
       let target := commas (args.map Piece.grouped)
       "std::sort(" ++ target ++ ".begin(), " ++ target ++ ".end())" },
   { name := "string/int/float"
     minArgs := 1
     trigger := fun _ site => site.isFunction ["string", "int", "float"]
     head := .none
     reads := [.one 0]
     write := fun site _ args => conversion site ++ "(" ++ commas (texts args) ++ ")" },
   { name := "rand"
     minArgs := 0
     trigger := fun _ site => site.isFunction ["rand"]
     head := .none
     reads := []
     write := fun _ _ _ => "std::rand()" },
   { name := "delay"
     minArgs := 1
     trigger := fun _ site => site.isFunction ["delay"]
     head := .none
     reads := [.one 0]
     write := fun _ _ args => "delay(" ++ commas (texts args) ++ ")" }]

def listForms : List SpecialForm :=
  [helperForm "list.add" 1 (fun features site => features.gui && site.isMethod ["add"])
      (fun _ => "_riri_list_add") 1,
   helperForm "list.clear" 0 (fun features site => features.gui && site.isMethod ["clear"])
      (fun _ => "_riri_list_clear") 0]

def arrayForms : List SpecialForm :=
  [{ name := "length"
     minArgs := 0
     trigger := fun _ site => site.isMethod ["length"]
     head := .callee
     reads := []
     write := fun _ callee _ => callee.text },
   helperForm "map/filter/forEach" 1 (fun _ site => site.isMethod ["map", "filter", "forEach"])
      namedHelper 1,
   helperForm "reduce" 2 (fun _ site => site.isMethod ["reduce"]) (fun _ => "_riri_reduce") 2,
   { name := "slice"
     minArgs := 1
     trigger := fun _ site => site.isMethod ["slice"]
     head := .receiver
     reads := [.one 0, .ifAny 1]
     write := fun _ receiver args =>
       let bounds := texts args
       "_riri_slice(" ++
         commas (receiver.text :: if bounds.length < 2 then bounds ++ ["-1"] else bounds) ++ ")" },
   helperForm "indexOf/includes/concat" 1
      (fun _ site => site.isMethod ["indexOf", "includes", "concat"]) namedHelper 1,
   { name := "join"
     minArgs := 0
     trigger := fun _ site => site.isMethod ["join"]
     head := .receiver
     reads := [.ifAny 0]
     write := fun _ receiver args =>
       "_riri_join(" ++
         commas (receiver.text ::
           if args.isEmpty then ["std::string(\",\")"] else texts args) ++ ")" },
   helperForm "reverse" 0 (fun _ site => site.isMethod ["reverse"]) (fun _ => "_riri_reverse") 0]

def stringForms : List SpecialForm :=
  [helperForm "split/startsWith" 1 (fun _ site => site.isMethod ["split", "startsWith"])
      namedHelper 1,
   helperForm "toLowerCase/toUpperCase/trim" 0
      (fun _ site => site.isMethod ["toLowerCase", "toUpperCase", "trim"]) namedHelper 0,
   { name := "parseInt/parseFloat"
     minArgs := 1
     trigger := fun _ site => site.isMethod ["parseInt", "parseFloat"]
     head := .none
     reads := [.one 0]
     write := fun site _ args => namedHelper site ++ "(" ++ commas (texts args) ++ ")" }]

def serverForms : List SpecialForm :=
  [{ name := "server.listen"
     minArgs := 1
     trigger := fun _ site => site.isMethod ["listen"]
     head := .receiver
     reads := [.one 0]
     write := fun _ receiver args =>
       "(" ++ receiver.text ++ ")->listen(\"0.0.0.0\", " ++ commas (texts args) ++ ")" },
   { name := "server.route"
     minArgs := 2
     trigger := fun _ site =>
       site.isMethod ["get", "post", "put", "delete"] && site.args.length = 2
     head := .receiver
     reads := [.one 0, .one 1]
     write := fun site receiver args =>
       "(" ++ receiver.text ++ ")->" ++ capitalize site.methodText ++ "(" ++
         commas (texts args) ++ ")" },
   { name := "server.use"
     minArgs := 1
     trigger := fun _ site => site.isMethod ["use"]
     head := .receiver
     reads := [.one 0]
     write := fun _ receiver args =>
       "(" ++ receiver.text ++ ")->set_pre_routing_handler(" ++ commas (texts args) ++ ")" },
   { name := "response.send/json"
     minArgs := 1
     trigger := fun features site => features.http && site.isMethod ["send", "json"]
     head := .receiver
     reads := [.one 0]
     write := fun site receiver args =>
       receiver.grouped ++ ".set_content(" ++ commas (texts args) ++ ", \"" ++ mimeType site ++
         "\")" },
   { name := "response.status"
     minArgs := 1
     trigger := fun features site => features.http && site.isMethod ["status"]
     head := .receiver
     reads := [.one 0]
     write := fun _ receiver args =>
       receiver.grouped ++ ".status = " ++ commas (texts args) }]

def stackForms : List SpecialForm :=
  [helperForm "push" 1 (fun _ site => site.isMethod ["push"]) (fun _ => "_riri_push") 1,
   helperForm "pop" 0 (fun _ site => site.isMethod ["pop"]) (fun _ => "_riri_pop") 0]

def requestForms : List SpecialForm :=
  [{ name := "request.get_*_value"
     minArgs := 1
     trigger := fun features site =>
       features.http && site.isMethod ["get_param_value", "get_header_value"]
     head := .receiver
     reads := [.all]
     write := valueCall },
   { name := "params.count/find"
     minArgs := 1
     trigger := fun features site =>
       features.http && site.isMethod ["count", "find"] &&
         (site.receiver?.bind Expr.memberName?).any ["params", "query"].contains
     head := .receiver
     reads := [.all]
     write := valueCall }]

-- A form for one receiver stands before the form for all of them.
def table : List SpecialForm :=
  mathForms ++ consoleForms ++ dialogForms ++ plainForms ++ listForms ++ arrayForms ++
    stringForms ++ serverForms ++ stackForms ++ requestForms

def find? (features : Features) (site : CallSite) : Option SpecialForm :=
  table.find? fun form => form.trigger features site

end SpecialForm

end ScriptCpp
