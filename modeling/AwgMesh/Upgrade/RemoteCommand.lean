import AwgMesh.PathText

/-!
# Commands for the remote shell

`sshDeploy` of `pkg/upgrade/driver.go` and `sshRollback` of `rollback.go` hand one string to the
shell of the node. It is read here by the token rules of POSIX: blanks and operators end a word
outside quotes, and between single quotes only the next one is special.
-/

namespace AwgMesh.Upgrade

open ByteText PathText

/-! ## Tokens of a shell -/

inductive Token where
  | word (w : Bytes)
  | ioNumber (n : Bytes)
  | operator (o : Bytes)
  deriving DecidableEq

/-- Where the shell stands. A word knows whether any of it was quoted. `unread` is for expansions,
groups, line breaks and mixed operators, none of which this reader follows. -/
inductive Reader where
  | gap
  | word (quoting : Bool) (w : Bytes)
  | quoted (w : Bytes)
  | escaped (w : Bytes)
  | operator (c : UInt8)
  | unread
  deriving DecidableEq

def isOperator (c : UInt8) : Bool := c ∈ ascii "|&;<>"

def isUnread (c : UInt8) : Bool := c ∈ ascii "$`\"*?[]#~=%!()\x7b\x7d\n"

def isDigit (c : UInt8) : Bool := 0x30 ≤ c && c ≤ 0x39

/-- Digits right before a redirection name a file descriptor. -/
def closeWord (quoting : Bool) (w : Bytes) (c : UInt8) : Token :=
  if !quoting && w.all isDigit && (c = 0x3c || c = 0x3e) then .ioNumber w else .word w

/-- A character outside quotes; `ended` is what it leaves behind if it ends the word. -/
def Reader.plain (quoting : Bool) (w : Bytes) (ended : List Token) (c : UInt8) :
    Reader × List Token :=
  if c = 0x27 then (.quoted w, [])
  else if c = 0x5c then (.escaped w, [])
  else if c = 0x20 ∨ c = 0x09 then (.gap, ended)
  else if isOperator c then (.operator c, ended)
  else if isUnread c then (.unread, [])
  else (.word quoting (w ++ [c]), [])

def Reader.step : Reader → UInt8 → Reader × List Token
  | .gap, c => plain false [] [] c
  | .word quoting w, c => plain quoting w [closeWord quoting w c] c
  | .quoted w, c => if c = 0x27 then (.word true w, []) else (.quoted (w ++ [c]), [])
  | .escaped w, c => if c = 0x0a then (.unread, []) else (.word true (w ++ [c]), [])
  | .operator o, c =>
    if c = o then (.gap, [.operator [o, c]])
    else if isOperator c then (.unread, [])
    else ((plain false [] [] c).1, [.operator [o]])
  | .unread, _ => (.unread, [])

def Reader.run : Reader → Bytes → Reader × List Token
  | s, [] => (s, [])
  | s, c :: rest => (((s.step c).1.run rest).1, (s.step c).2 ++ ((s.step c).1.run rest).2)

open Upgrade.Reader

def shellTokens (line : Bytes) : Option (List Token) :=
  match run .gap line with
  | (.gap, tokens) => some tokens
  | (.word _ w, tokens) => some (tokens ++ [.word w])
  | (.operator o, tokens) => some (tokens ++ [.operator [o]])
  | _ => none

theorem Reader.run_trans {s t u : Reader} {a b : Bytes} {x y : List Token} (ha : s.run a = (t, x))
    (hb : t.run b = (u, y)) :
    s.run (a ++ b) = (u, x ++ y) := by
  induction a generalizing s x with
  | nil =>
    cases ha
    exact hb
  | cons c a ih =>
    rw [run] at ha
    obtain ⟨ht, hx⟩ := Prod.mk.inj ha
    rw [List.cons_append, run, ih (Prod.ext ht rfl), ← hx, List.append_assoc]

/-! ## The commands -/

def shellQuote (s : Bytes) : Bytes :=
  0x27 :: s.flatMap (fun c => if c = 0x27 then ascii "'\\''" else [c]) ++ [0x27]

theorem Reader.run_quoted (w s : Bytes) :
    (quoted w).run
        (s.flatMap (fun c => if c = 0x27 then ascii "'\\''" else [c]) ++ [0x27]) =
      (.word true (w ++ s), []) := by
  induction s generalizing w with
  | nil => simp [run, step]
  | cons c s ih =>
    rw [List.flatMap_cons, List.append_assoc, List.append_cons w c s]
    refine run_trans (t := .quoted (w ++ [c])) (x := []) ?_ (ih (w ++ [c]))
    by_cases hc : c = 0x27
    · -- closed, one escaped quote, opened again
      rw [if_pos hc, hc]
      rfl
    · simp [run, step, hc]

/-- From between two words, a quoted string is read as one word, the string itself. -/
theorem Reader.run_shellQuote (s : Bytes) :
    gap.run (shellQuote s) = (.word true s, []) :=
  run_quoted [] s

inductive ImageRefError where
  | empty
  | invalidCharacter (ref rest : Bytes)

def isImageRefChar (r : UInt8) : Bool :=
  (0x61 ≤ r && r ≤ 0x7a) || (0x41 ≤ r && r ≤ 0x5a) || isDigit r || r ∈ ascii ".-_/:@"

def validateImageRef (ref : Bytes) : Except ImageRefError Unit :=
  if ref = [] then .error .empty
  else match ref.dropWhile isImageRefChar with
    | [] => .ok ()
    | rest => .error (.invalidCharacter ref rest)

def DefaultRemoteComposeDir : Bytes := ascii "/etc/docker/compose"

def remotePath (ending remoteDir name : Bytes) : Bytes :=
  joinText (if remoteDir = [] then DefaultRemoteComposeDir else remoteDir) (name ++ ending)

def remoteComposePath : Bytes → Bytes → Bytes := remotePath (ascii "-docker-compose.yml")

def remoteBackupComposePath : Bytes → Bytes → Bytes := remotePath (ascii "-docker-compose.yml.bak")

/-- The `remoteCmd` of `sshDeploy`. -/
def sshDeploy (newImage remoteDir name : Bytes) : Except ImageRefError Bytes := do
  validateImageRef newImage
  let rPath := remoteComposePath remoteDir name
  return ascii "docker image rm " ++ shellQuote newImage ++ ascii " 2>/dev/null || true" ++
    ascii " && docker pull " ++ shellQuote newImage ++
    ascii " && docker compose -f " ++ shellQuote rPath ++ ascii " up -d"

/-- The `remoteCmd` of `sshRollback`. -/
def sshRollback (remoteDir name : Bytes) : Bytes :=
  ascii "docker compose -f " ++ shellQuote (remoteBackupComposePath remoteDir name) ++
    ascii " up -d"

def words (line : String) : List Token :=
  ((splitByte 0x20 (ascii line)).filter (· ≠ [])).map .word

def composeUp (path : Bytes) : List Token :=
  words "docker compose -f" ++ .word path :: words "up -d"

def deployTokens (image path : Bytes) : List Token :=
  words "docker image rm" ++ .word image :: .ioNumber (ascii "2") :: .operator (ascii ">") ::
    .word (ascii "/dev/null") :: .operator (ascii "||") :: words "true" ++
    .operator (ascii "&&") :: words "docker pull" ++ .word image :: .operator (ascii "&&") ::
    composeUp path

theorem Reader.run_composeUp (path : Bytes) :
    gap.run (ascii "docker compose -f " ++ shellQuote path ++ ascii " up -d") =
      (.word false (ascii "-d"), words "docker compose -f" ++ .word path :: words "up") :=
  run_trans (run_trans (x := words "docker compose -f") (by decide +kernel) (run_shellQuote path))
    rfl

theorem shellTokens_of_run {line w : Bytes} {quoting : Bool} {x : List Token}
    (h : gap.run line = (.word quoting w, x)) :
    shellTokens line = some (x ++ [.word w]) := by
  rw [shellTokens, h]

/-- **No injection.** The shell of the node finds the intended commands and nothing else, with the
image and the remote path as one word each. -/
theorem remote_commands_intact (newImage remoteDir name : Bytes) :
    (sshDeploy newImage remoteDir name).map shellTokens = (validateImageRef newImage).map
          (fun _ => some (deployTokens newImage (remoteComposePath remoteDir name))) ∧
      shellTokens (sshRollback remoteDir name) =
        some (composeUp (remoteBackupComposePath remoteDir name)) := by
  refine ⟨?_, shellTokens_of_run (run_composeUp _)⟩
  rw [sshDeploy]
  cases validateImageRef newImage with
  | error e => rfl
  | ok _ =>
    refine congrArg Except.ok ?_
    have hrm := run_trans (s := .gap) (a := ascii "docker image rm ")
      (x := words "docker image rm") (by decide +kernel) (run_shellQuote newImage)
    have hpull := run_trans (s := .word true newImage)
      (a := ascii " 2>/dev/null || true" ++ ascii " && docker pull ") rfl
      (run_shellQuote newImage)
    have hup := run_trans (s := .word true newImage) (a := ascii " && ") rfl
      (run_composeUp (remoteComposePath remoteDir name))
    have hall := shellTokens_of_run (run_trans (run_trans hrm hpull) hup)
    have hsplit : ascii " && docker compose -f " = ascii " && " ++ ascii "docker compose -f " := by
      decide +kernel
    simp only [hsplit, List.append_assoc] at hall ⊢
    exact hall

end AwgMesh.Upgrade
