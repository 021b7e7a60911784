/-!
# Keywords

The words that only steer the grammar, by category.  They have no meaning of their own.
-/

namespace PhraseScript.Lexicon

/-- The keywords of each category. -/
def keywords : List (String × List String) :=
  [("Add", ["add"]), ("Added", ["added"]), ("All", ["all"]), ("And", ["and"]), ("At", ["at"]),
    ("Backdrop", ["backdrop"]), ("Be", ["be"]), ("Between", ["between"]),
    ("Broadcast", ["broadcast"]), ("By", ["by"]), ("Called", ["called", "named"]),
    ("Change", ["change"]), ("Clicked", ["clicked", "pressed"]), ("Clone", ["clone"]),
    ("Contains", ["contains", "has"]), ("Decrement", ["decrement"]), ("Delete", ["delete"]),
    ("Det", ["the", "this", "a", "an"]), ("Divide", ["divide"]), ("Divided", ["divided"]),
    ("Effect", ["effect"]), ("Ele", ["element", "item"]), ("Else", ["else", "otherwise"]),
    ("Equal", ["equal"]), ("Faster", ["faster"]), ("Flag", ["flag"]),
    ("Following", ["following"]), ("For", ["for"]), ("Forever", ["forever"]), ("From", ["from"]),
    ("Greater", ["greater"]), ("Green", ["green"]), ("I", ["i"]), ("If", ["if"]), ("In", ["in"]),
    ("Increment", ["increment"]), ("Is", ["is"]), ("It", ["it"]), ("Item", ["item"]),
    ("Key", ["key", "button"]), ("Less", ["less"]), ("List", ["list"]), ("Louder", ["louder"]),
    ("Make", ["make", "create"]), ("Message", ["message"]), ("Minus", ["minus"]),
    ("Multiplied", ["multiplied"]), ("Multiply", ["multiply"]), ("Myself", ["myself"]),
    ("Negative", ["negative"]), ("New", ["new"]), ("Number", ["number"]), ("Of", ["of"]),
    ("Or", ["or"]), ("Percent", ["percent"]), ("Pitch", ["pitch"]), ("Play", ["play"]),
    ("Plus", ["plus"]), ("Product", ["product"]), ("Program", ["program"]),
    ("Random", ["random"]), ("Receive", ["receive"]), ("Repeat", ["repeat", "do"]),
    ("Repeated", ["repeated", "done"]), ("Replace", ["replace"]), ("Reset", ["reset"]),
    ("Same", ["same"]), ("Seconds", ["seconds", "second"]),
    ("SequenceAdverb", ["then", "after", "finally"]), ("Set", ["set"]), ("Should", ["should"]),
    ("Single", ["single"]), ("Slower", ["slower"]), ("Softer", ["softer", "quieter"]),
    ("Sound", ["sound"]), ("Sounds", ["sounds"]), ("Sprite", ["sprite"]),
    ("Sprites", ["sprites"]), ("Starts", ["starts"]), ("Steps", ["steps"]),
    ("Stop", ["stop", "terminate"]), ("Subtract", ["subtract"]), ("Subtracted", ["subtracted"]),
    ("Sum", ["sum"]), ("Switches", ["switches"]), ("Than", ["than"]), ("That", ["that"]),
    ("Thats", ["thats", "that's"]), ("The", ["the"]), ("Then", ["then"]), ("Time", ["time"]),
    ("Times", ["times"]), ("To", ["to"]), ("Too", ["too", "simultaneously"]),
    ("Until", ["until", "till"]), ("Variable", ["variable"]), ("Volume", ["volume"]),
    ("Wait", ["wait"]), ("When", ["when"]), ("With", ["with"])]

end PhraseScript.Lexicon
