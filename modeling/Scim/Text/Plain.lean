/-!
# `Scim.Text.Plain`: text that does not steer a terminal

A terminal takes some characters as commands. `plain` leaves those out of a text, so that printing
it cannot do more than show it. Left out are the control characters, except tabs and line ends, and
the escape sequences:

    ESC intermediates final                      a short sequence
    ESC [ parameters intermediates final         a control sequence
    ESC P parameters intermediates string ST     a device control string
    ESC X string ST, ESC ^ string ST, ESC _ string ST
    ESC ] string BEL                             an operating system command

ST is `ESC \`, which is a short sequence itself, or the byte 9C. A terminal reads bytes and does not
know characters inside a string, so there every character ends the string that is encoded with this
byte. CAN, SUB and ESC break off whatever has been started. A string that does not end takes the
rest of the text with it, line ends included.
-/

set_option autoImplicit false

namespace Scim.Text

/-- What the characters read so far mean for the next one. -/
inductive ControlState where
  /-- It is shown. -/
  | text
  /-- It follows an escape character. -/
  | escape
  /-- It follows an intermediate of a short sequence. -/
  | escapeIntermediate
  /-- It is part of a control sequence. -/
  | sequence
  /-- It is the first one of a device control string. -/
  | deviceEntry
  /-- It follows a parameter of a device control string. -/
  | deviceParameters
  /-- It follows an intermediate of a device control string. -/
  | deviceIntermediates
  /-- It is part of a string. -/
  | string
  /-- It is part of an operating system command. -/
  | systemCommand
  deriving DecidableEq, Repr

/-- Whether a character is a tab or ends a line or a page. -/
def isLayout (c : Char) : Bool :=
  c = '\t' || c = '\n' || c = '\r' || c.toNat = 0x0C

/-- Whether a character of a text is shown. The control characters beyond ASCII are, because their
encodings are those of characters. -/
def isPlain (c : Char) : Bool :=
  isLayout c || (0x20 ≤ c.toNat && c.toNat ≠ 0x7F)

/-- Whether a character is an intermediate of a sequence. -/
def isIntermediate (c : Char) : Bool :=
  0x20 ≤ c.toNat && c.toNat ≤ 0x2F

/-- Whether a character is a parameter of a sequence. -/
def isParameter (c : Char) : Bool :=
  0x30 ≤ c.toNat && c.toNat ≤ 0x3F

/-- Whether a character is a digit of a parameter, or separates parameters. -/
def isParameterPart (c : Char) : Bool :=
  0x30 ≤ c.toNat && c.toNat ≤ 0x3B

/-- Whether a character is the last one of a sequence with parameters. -/
def isFinal (c : Char) : Bool :=
  0x40 ≤ c.toNat && c.toNat ≤ 0x7E

/-- Whether a character ends a string: the byte 9C is in its encoding. -/
def endsString (c : Char) : Bool :=
  (String.utf8EncodeChar c).contains 0x9C

namespace ControlState

/-- The state after a character that follows an escape character. -/
def afterEscape (c : Char) : ControlState :=
  if c = '[' then sequence
  else if c = ']' then systemCommand
  else if c = 'P' then deviceEntry
  else if c = 'X' || c = '^' || c = '_' then string
  else if isIntermediate c then escapeIntermediate
  else if isParameter c || isFinal c || isLayout c then text
  else escape

/-- The state after a character that breaks nothing off. -/
def continued (state : ControlState) (c : Char) : ControlState :=
  match state with
  | text => text
  | escape => afterEscape c
  | escapeIntermediate =>
    if isParameter c || isFinal c || isLayout c then text else escapeIntermediate
  | sequence => if isFinal c || isLayout c then text else sequence
  | deviceEntry =>
    if isIntermediate c then deviceIntermediates
    else if isParameter c then deviceParameters
    else if isFinal c then string
    else deviceEntry
  | deviceParameters =>
    if isIntermediate c then deviceIntermediates
    else if isParameterPart c then deviceParameters
    -- A private marker is not allowed here, and the string is skipped like any other.
    else if isParameter c || isFinal c then string
    else deviceParameters
  | deviceIntermediates => if isParameter c || isFinal c then string else deviceIntermediates
  | string => if endsString c then text else string
  | systemCommand => if c.toNat = 0x07 then text else systemCommand

/-- The state after a character. -/
def next (state : ControlState) (c : Char) : ControlState :=
  if c.toNat = 0x1B then escape
  else if c.toNat = 0x18 || c.toNat = 0x1A then text
  else state.continued c

/-- Whether a character is kept. Tabs and line ends are, unless they are inside a string. -/
def keeps (state : ControlState) (c : Char) : Bool :=
  match state with
  | text => isPlain c
  | escape | escapeIntermediate | sequence => isLayout c
  | deviceEntry | deviceParameters | deviceIntermediates | string | systemCommand => false

end ControlState

/-- The characters that are kept, from a state on. -/
def plainFrom : ControlState → List Char → List Char
  | _, [] => []
  | state, c :: cs =>
    if state.keeps c then c :: plainFrom (state.next c) cs else plainFrom (state.next c) cs

/-- A text without control characters and escape sequences. -/
def plain (text : String) : String :=
  String.ofList (plainFrom .text text.toList)

/-- A character that is shown as it is starts no sequence. -/
theorem next_text_of_isPlain {c : Char} (h : isPlain c = true) :
    ControlState.text.next c = .text := by
  simp only [isPlain, isLayout, Bool.or_eq_true, Bool.and_eq_true, decide_eq_true_eq] at h
  -- The escape character is a control character, so it is not shown.
  have : c.toNat ≠ 0x1B := by
    rintro hc
    rcases h with ((((rfl | rfl) | rfl) | h) | h)
    · contradiction
    · contradiction
    · contradiction
    · omega
    · omega
  simp [ControlState.next, ControlState.continued, this]

/-- Nothing is left out of characters that are all shown as they are. -/
theorem plainFrom_text_of_all {cs : List Char} (h : cs.all isPlain = true) :
    plainFrom .text cs = cs := by
  induction cs with
  | nil => rfl
  | cons c cs ih =>
    simp only [List.all_cons, Bool.and_eq_true] at h
    simp [plainFrom, ControlState.keeps, h.1, next_text_of_isPlain h.1, ih h.2]

/-- A text that is shown as it is stays as it is. -/
theorem plain_of_all {text : String} (h : text.toList.all isPlain = true) :
    plain text = text := by
  rw [plain, plainFrom_text_of_all h, String.ofList_toList]

end Scim.Text
