import PhraseScript.Grammar.RuleTable

/-!
# The standard grammar

The rules of the phrase language with their constructions, by what they are about.
-/

namespace PhraseScript.Grammar

open Construction

/-- A rule with its construction. -/
abbrev Rule := RuleKey × Construction

/-- The rule that derives `lhs` from `rhs`. -/
def rule (lhs : String) (rhs : List String) (construction : Construction) : Rule :=
  (⟨lhs, rhs⟩, construction)

/-- The kinds of phrase that are actions. -/
def actionPhrases : List String :=
  ["SoundCommand", "CreateCommand", "DataCommand", "EventHandler", "OrderedCommand",
    "SequentialCommand", "ConditionalCommand", "LoopCommand", "TimerCommand", "BroadcastCommand",
    "ControlCommand"]

/-- Sentences, sequences of actions, and the words around names, which carry no meaning. -/
def structureRules : List Rule :=
  [rule "Start" ["S"] (.pass 0),
    rule "S" ["AL"] (.pass 0),
    rule "S" ["BP"] (.pass 0),
    rule "AL" ["AP"] .singleAction,
    rule "AL" ["AP", "AL"] (.concatenate 0 1),
    rule "AL" ["AP", "And", "AL"] (.concatenate 0 2)] ++
  actionPhrases.map (fun phrase => rule "AP" [phrase] (.pass 0)) ++
  [rule "OrderedCommand" ["OrderAdverb", "AL"] (.pass 1),
    rule "SequentialCommand" ["SequenceAdverb", "AL"] .recordSequence,
    rule "Variable" ["Det", "Variable"] (.pass 1),
    rule "Variable" ["Variable", "Called"] (.pass 0),
    rule "VARIABLE_NAME" ["Variable", "VARIABLE_NAME"] (.pass 1),
    rule "List" ["Det", "List"] (.pass 1),
    rule "List" ["List", "Called"] (.pass 0),
    rule "LIST_NAME" ["Det", "LIST_NAME"] (.pass 1),
    rule "LIST_NAME" ["List", "LIST_NAME"] (.pass 1),
    rule "Keyname" ["Key"] (.constant .null),
    rule "Keyname" ["Det", "Key"] (.constant .null),
    rule "Keyname" ["Det", "Key", "Called"] (.constant .null),
    rule "Keyname" ["Key", "Called"] (.constant .null),
    rule "KEY_NAME" ["Keyname", "KEY_NAME"] (.pass 1),
    rule "KEY_NAME" ["Det", "KEY_NAME"] (.pass 1),
    rule "KEY_NAME" ["KEY_NAME", "Key"] (.pass 0),
    rule "MESSAGE_NAME" ["Det", "MESSAGE_NAME"] (.pass 1),
    rule "MESSAGE_NAME" ["Message", "MESSAGE_NAME"] (.pass 1),
    rule "Message" ["New", "Message"] (.pass 1),
    rule "Message" ["Det", "Message"] (.pass 1),
    rule "Message" ["Message", "Called"] (.pass 0),
    rule "Timer" ["Det", "Timer"] (.pass 1),
    rule "NEG" ["Is", "NEG"] (.pass 1)]

/-- By how much sounds become softer or louder, and slower or faster. -/
def soundStep : Int := 10

/-- A number as a meaning. -/
def integer (value : Int) : Meaning := .number (.ofInt value)

/-- Sounds. -/
def soundRules : List Rule :=
  [rule "SoundCommand" ["Play", "Det", "NAME_OF_SOUND", "Sound"]
      (.withName Opcode.playSoundAndWait 2),
    rule "SoundCommand" ["Set", "Volume", "To", "Unk"] (.withNumber Opcode.setVolume 3),
    rule "SoundCommand" ["Set", "Volume", "To", "Unk", "Percent"]
      (.withNumber Opcode.setVolume 3),
    rule "SoundCommand" ["Change", "Volume", "By", "Unk"] (.withNumber Opcode.changeVolume 3),
    rule "SoundCommand" ["Change", "Pitch", "Effect", "By", "Unk"]
      (.withNumber Opcode.changeTempo 4),
    rule "SoundCommand" ["Stop", "All", "Sounds"] (bare Opcode.stopAllSounds),
    rule "SoundCommand" ["Stop"] (bare Opcode.stopAllSounds),
    rule "SoundCommand" ["Softer"] (fixed Opcode.changeVolume (integer (-soundStep))),
    rule "SoundCommand" ["Louder"] (fixed Opcode.changeVolume (integer soundStep)),
    rule "SoundCommand" ["Slower"] (fixed Opcode.changeTempo (integer (-soundStep))),
    rule "SoundCommand" ["Faster"] (fixed Opcode.changeTempo (integer soundStep))]

/-- Clones, variables and declarations.  A list belongs to the whole program, whichever sprites
it is made for. -/
def dataRules : List Rule :=
  [rule "CreateCommand" ["Make", "Det", "Clone", "Of", "Myself"]
      (fixed Opcode.createClone (.text "myself")),
    rule "CreateCommand" ["Make", "VARIABLE_LIST"] .createVariables,
    rule "CreateCommand" ["Make", "List", "LIST_NAME"] .createList,
    rule "CreateCommand" ["Make", "List", "LIST_NAME", "For", "Det", "Single", "Sprite"]
      .createList,
    rule "CreateCommand" ["Make", "List", "LIST_NAME", "For", "All", "Det", "Sprites"]
      .createList,
    rule "VARIABLE_LIST" ["VARIABLE_NAME"] .declareOne,
    rule "VARIABLE_LIST" ["VARIABLE_NAME", "And", "VARIABLE_LIST"] .declareMore,
    rule "DataCommand" ["Delete", "VARIABLE_NAME"] .deleteVariable,
    rule "DataCommand" ["Set", "VARIABLE_NAME", "To", "BP"] .setVariable,
    rule "DataCommand" ["Set", "VARIABLE_NAME", "To", "NP"] .setVariable,
    rule "DataCommand" ["Set", "VARIABLE_NAME", "To", "ITEM"] .setVariable,
    rule "DataCommand" ["Add", "NP", "To", "VARIABLE_NAME"]
      (.changeVariable (.operand 1) false 3),
    rule "DataCommand" ["Increment", "VARIABLE_NAME", "By", "NP"]
      (.changeVariable (.operand 3) false 1),
    rule "DataCommand" ["Add", "VARIABLE_NAME", "To", "VARIABLE_NAME"]
      (.changeVariable (.variableAt 1) false 3),
    rule "DataCommand" ["Subtract", "NP", "From", "VARIABLE_NAME"]
      (.changeVariable (.operand 1) true 3),
    rule "DataCommand" ["Decrement", "VARIABLE_NAME", "By", "NP"]
      (.changeVariable (.operand 3) true 1),
    rule "DataCommand" ["Subtract", "VARIABLE_NAME", "From", "VARIABLE_NAME"]
      (.changeVariable (.variableAt 1) true 3),
    rule "DataCommand" ["Multiply", "VARIABLE_NAME", "By", "NP"]
      (.scaleVariable Opcode.multiply (.operand 3)),
    rule "DataCommand" ["Multiply", "VARIABLE_NAME", "By", "VARIABLE_NAME"]
      (.scaleVariable Opcode.multiply (.variableAt 3)),
    rule "DataCommand" ["Divide", "VARIABLE_NAME", "By", "NP"]
      (.scaleVariable Opcode.divide (.operand 3)),
    rule "DataCommand" ["Divide", "VARIABLE_NAME", "By", "VARIABLE_NAME"]
      (.scaleVariable Opcode.divide (.variableAt 3))]

/-- Lists and their items. -/
def listRules : List Rule :=
  [rule "ITEM" ["NP"] (.pass 0),
    rule "ITEM" ["MESSAGE_NAME"] (.pass 0),
    rule "ITEM" ["Unk"] (.pass 0),
    rule "ITEM" ["VARIABLE_NAME"] .readVariable,
    rule "ITEM" ["DataReporter"] (.pass 0),
    rule "NP" ["DataReporter"] (.pass 0),
    rule "DataCommand" ["Add", "ITEM", "To", "LIST_NAME"] .appendItem,
    rule "DataCommand" ["Delete", "Ele", "NP", "Of", "LIST_NAME"] (.deleteLine 2 4),
    rule "DataCommand" ["Delete", "Det", "OrderAdverb", "Ele", "Of", "LIST_NAME"]
      (.deleteLine 2 5),
    rule "DataCommand" ["Replace", "Ele", "NP", "Of", "LIST_NAME", "With", "ITEM"]
      (.setLine 2 4 6),
    rule "DataCommand" ["Replace", "Det", "OrderAdverb", "Ele", "Of", "LIST_NAME", "With", "ITEM"]
      (.setLine 2 5 7),
    rule "DataCommand" ["Set", "Ele", "NP", "Of", "LIST_NAME", "To", "ITEM"] (.setLine 2 4 6),
    rule "DataCommand" ["Set", "Det", "OrderAdverb", "Ele", "Of", "LIST_NAME", "To", "ITEM"]
      (.setLine 2 5 7),
    rule "DataReporter" ["The", "OrderAdverb", "Item", "In", "LIST_NAME"] (.getLine 1 4),
    rule "DataReporter" ["Item", "NP", "Of", "LIST_NAME"] (.getLine 1 3),
    rule "BP" ["Item", "Unk", "In", "LIST_NAME"] .wordInList,
    rule "BP" ["Item", "Unk", "LMOD", "In", "LIST_NAME"] .wordInListModified,
    rule "BP" ["LIST_NAME", "Contains", "ITEM"] .listContains]

/-- Arithmetic.  What is subtracted from something stands in front of it. -/
def operatorRules : List Rule :=
  [rule "NP" ["Unk"] .numeral,
    rule "NP" ["NPP"] (.pass 0),
    rule "NP" ["Det", "NPP"] (.pass 1),
    rule "NP" ["VARIABLE_NAME"] .readVariable,
    rule "NP" ["NP", "Plus", "NP"] (.binary Opcode.add 0 2),
    rule "NP" ["NP", "Added", "To", "NP"] (.binary Opcode.add 0 3),
    rule "NPP" ["Sum", "Of", "NP", "And", "NP"] (.binary Opcode.add 2 4),
    rule "NP" ["NP", "Minus", "NP"] (.binary Opcode.subtract 0 2),
    rule "NP" ["NP", "Subtracted", "By", "NP"] (.binary Opcode.subtract 0 3),
    rule "NP" ["NP", "Subtracted", "From", "NP"] (.binary Opcode.subtract 3 0),
    rule "NP" ["NP", "Times", "NP"] (.binary Opcode.multiply 0 2),
    rule "NP" ["NP", "Multiplied", "By", "NP"] (.binary Opcode.multiply 0 3),
    rule "NPP" ["Product", "Of", "NP", "And", "NP"] (.binary Opcode.multiply 2 4),
    rule "NP" ["NP", "Divided", "By", "NP"] (.binary Opcode.divide 0 3),
    rule "NPP" ["Random", "Number", "Between", "NP", "And", "NP"] (.binary Opcode.random 3 5),
    rule "NP" ["Negative", "NP"] .negative]

/-- Comparisons and truth values. -/
def logicRules : List Rule :=
  [rule "CBP" ["Equal", "To"] (relation .equal),
    rule "CBP" ["Greater", "Than"] (relation .greater),
    rule "CBP" ["Less", "Than"] (relation .less),
    rule "CBP" ["Greater", "Than", "Or", "Equal", "To"] (relation .greaterOrEqual),
    rule "CBP" ["Less", "Than", "Or", "Equal", "To"] (relation .lessOrEqual),
    rule "CBP" ["LMOD", "CBP"] .modifyComparator,
    rule "LMOD" ["POS"] (.pass 0),
    rule "LMOD" ["NEG"] (.pass 0),
    rule "BP" ["VARIABLE_NAME", "CBP", "Unk"] (.compare .variableName),
    rule "BP" ["VARIABLE_NAME", "CBP", "VARIABLE_NAME"] .compareVariables,
    rule "BP" ["Unk", "CBP", "Unk"] (.compare .looseOperand),
    rule "BP" ["Timer", "CBP", "Unk"] (.compare .operand),
    rule "BP" ["Boolean"] (.pass 0),
    rule "Boolean" ["BooleanLiteral"] (.pass 0),
    rule "Boolean" ["LMOD", "BooleanLiteral"] .modifyLiteral,
    rule "BP" ["BP", "And", "BP"] (.junction Opcode.and),
    rule "BP" ["BP", "Or", "BP"] (.junction Opcode.or)]

/-- Conditions, waiting, repetition and the timer. -/
def controlRules : List Rule :=
  [rule "ConditionalCommand" ["If", "BP", "Then", "AL", "Thats", "It"] .doIf,
    rule "ConditionalCommand"
      ["If", "BP", "Then", "AL", "Thats", "It", "Else", "AL", "Thats", "It"] .doIfElse,
    rule "ControlCommand" ["Wait", "Unk", "Seconds"] (.withNumber Opcode.wait 1),
    rule "ControlCommand" ["Wait", "Until", "BP"] .waitUntil,
    rule "ControlCommand" ["Repeat", "AL", "Until", "BP"] .repeatUntil,
    rule "ControlCommand" ["Repeat", "AL", "Forever"] .repeatForever,
    rule "ControlCommand" ["Repeat", "AL", "Unk", "Times"] .repeatTimes,
    rule "ControlCommand" ["Delete", "Det", "Clone"] (bare Opcode.deleteClone),
    rule "TimerCommand" ["Reset", "Timer"] (bare Opcode.resetTimer),
    rule "Duration" ["Unk", "Times"] .countTimes,
    rule "LoopCommand" ["Repeat", "LoopCommandP"] (.pass 1),
    rule "LoopCommand" ["LoopCommandP"] (.pass 0),
    rule "LoopCommand" ["AL", "Should", "Be", "Repeated", "Duration"] (.repeatFor 0 4),
    rule "LoopCommand" ["AL", "That", "Should", "Be", "Repeated", "Duration"] (.repeatFor 0 5),
    rule "LoopCommandP" ["AP", "Duration"] (.repeatFor 0 1),
    rule "LoopCommandP" ["The", "Following", "Duration", "AL", "Thats", "It"] (.repeatFor 3 2),
    rule "LoopCommandP" ["The", "Following", "Steps", "Duration", "AL", "Thats", "It"]
      (.repeatFor 4 3)]

/-- Triggers, handlers and messages.  There is no trigger for the timer, so its handler begins
by waiting for it. -/
def eventRules : List Rule :=
  [rule "EVENT" ["When", "Det", "Green", "Flag", "Is", "Clicked"] (bare Opcode.whenGreenFlag),
    rule "EVENT" ["When", "Green", "Flag", "Is", "Clicked"] (bare Opcode.whenGreenFlag),
    rule "EVENT" ["When", "Det", "Program", "Starts"] (bare Opcode.whenGreenFlag),
    rule "EVENT" ["When", "Program", "Starts"] (bare Opcode.whenGreenFlag),
    rule "EVENT" ["When", "KEY_NAME", "Is", "Clicked"] (.withName Opcode.whenKeyPressed 1),
    rule "EVENT" ["When", "Det", "Sprite", "Is", "Clicked"] (bare Opcode.whenClicked),
    rule "EVENT" ["When", "Backdrop", "Switches", "To", "BACKDROP_NAME"]
      (.withName Opcode.whenSceneStarts 4),
    rule "EVENT" ["When", "Backdrop", "Switches", "To", "Det", "BACKDROP_NAME"]
      (.withName Opcode.whenSceneStarts 5),
    rule "EVENT" ["When", "I", "Receive", "MESSAGE_NAME"] (.withName Opcode.whenIReceive 3),
    rule "EVENT" ["When", "Timer", "CBP", "NP"] .whenTimer,
    rule "SimpleEventHandler" ["EVENT", "AL"] .handler,
    rule "EventHandler" ["SimpleEventHandler", "Thats", "It"] (.pass 0),
    rule "EventHandler" ["SimpleEventHandler", "At", "Det", "Same", "Time", "Thats", "It"]
      (.pass 0),
    rule "EventHandler" ["SimpleEventHandler", "Too", "Thats", "It"] (.pass 0),
    rule "EventHandler" ["SimpleEventHandler", "At", "Det", "Same", "Time", "Too", "Thats", "It"]
      (.pass 0),
    rule "BroadcastCommand" ["Broadcast", "MESSAGE_NAME"] (.withName Opcode.broadcast 1),
    rule "BroadcastCommand" ["Broadcast", "MESSAGE_NAME", "And", "Wait"]
      (.withName Opcode.broadcastAndWait 1)]

/-- All rules of the standard grammar. -/
def standard : List Rule :=
  structureRules ++ soundRules ++ dataRules ++ listRules ++ operatorRules ++ logicRules ++
    controlRules ++ eventRules

/-- The table of the standard grammar. -/
def standardTable : RuleTable :=
  .ofList (standard.map fun rule => (rule.1, rule.2.build))

end PhraseScript.Grammar
