/-!
# Opcodes

The names of the blocks that scripts are made of.
-/

namespace PhraseScript.Opcode

/-! ## Commands -/

def playSoundAndWait : String := "doPlaySoundAndWait"
def setVolume : String := "setVolumeTo:"
def changeVolume : String := "changeVolumeBy:"
def changeTempo : String := "changeTempoBy:"
def stopAllSounds : String := "stopAllSounds"
def createClone : String := "createCloneOf:"
def deleteClone : String := "deleteClone"
def setVariable : String := "setVar:to:"
def changeVariable : String := "changeVar:by:"
def appendToList : String := "append:toList:"
def deleteLine : String := "deleteLine:ofList:"
def setLine : String := "setLine:ofList:to:"
def resetTimer : String := "timerReset"
def doIf : String := "doIf"
def doIfElse : String := "doIfElse"
def repeatTimes : String := "doRepeat"
def repeatUntil : String := "doUntil"
def repeatForever : String := "doForever"
def wait : String := "wait:elapsed:from:"
def waitUntil : String := "doWaitUntil"
def broadcast : String := "broadcast:"
def broadcastAndWait : String := "doBroadcastAndWait:"

/-! ## Commands that begin a handler -/

def whenGreenFlag : String := "whenGreenFlag"
def whenKeyPressed : String := "whenKeyPressed"
def whenClicked : String := "whenClicked"
def whenSceneStarts : String := "whenSceneStarts"
def whenIReceive : String := "whenIReceive"

/-! ## Expressions -/

def add : String := "+"
def subtract : String := "-"
def multiply : String := "*"
def divide : String := "/"
def less : String := "<"
def greater : String := ">"
def equal : String := "="
def or : String := "|"
def and : String := "&"
def not : String := "not"
def readVariable : String := "readVariable"
def random : String := "randomFrom:to:"
def timer : String := "timer"
def getLine : String := "getLine:ofList:"
def listContains : String := "list:contains:"

end PhraseScript.Opcode
