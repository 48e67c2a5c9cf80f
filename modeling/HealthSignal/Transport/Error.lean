import HealthSignal.Duration
import HealthSignal.Status

/-!
Failures of the operating system and of calls on an external signal.
-/
namespace HealthSignal

inductive IoError
  | notFound
  | alreadyExists
  | notADirectory
  | isADirectory
  | nameTooLong
  | directoryNotEmpty
  | invalidArgument
  | noSuchDevice
  | nulByte
  | invalidText
  | addressInUse
  | addressNotAvailable
  | notASocketAddress
  | invalidPort
  | unknownHost
  | other (text : String)
  deriving DecidableEq, Repr

namespace IoError

def message : IoError → String
  | .notFound => "No such file or directory (os error 2)"
  | .alreadyExists => "File exists (os error 17)"
  | .notADirectory => "Not a directory (os error 20)"
  | .isADirectory => "Is a directory (os error 21)"
  | .nameTooLong => "File name too long (os error 36)"
  | .directoryNotEmpty => "Directory not empty (os error 39)"
  | .invalidArgument => "Invalid argument (os error 22)"
  | .noSuchDevice => "No such device (os error 19)"
  | .nulByte => "file name contained an unexpected NUL byte"
  | .invalidText => "stream did not contain valid UTF-8"
  | .addressInUse => "Address already in use (os error 98)"
  | .addressNotAvailable => "Cannot assign requested address (os error 99)"
  | .notASocketAddress => "invalid socket address"
  | .invalidPort => "invalid port value"
  | .unknownHost => "failed to lookup address information: Name or service not known"
  | .other text => text

def kind : IoError → String
  | .notFound => "NotFound"
  | .alreadyExists => "AlreadyExists"
  | .notADirectory => "NotADirectory"
  | .isADirectory => "IsADirectory"
  | .nameTooLong => "InvalidFilename"
  | .directoryNotEmpty => "DirectoryNotEmpty"
  | .invalidArgument | .nulByte | .notASocketAddress | .invalidPort => "InvalidInput"
  | .invalidText => "InvalidData"
  | .addressInUse => "AddrInUse"
  | .addressNotAvailable => "AddrNotAvailable"
  | .noSuchDevice | .unknownHost => "Uncategorized"
  | .other _ => "Other"

end IoError

inductive TransportError
  | io (error : IoError)
  | deadline (limit : Duration)
  | closed
  | refused (reason : String)
  deriving DecidableEq, Repr

def TransportError.message : TransportError → String
  | .io e => "transport I/O failed: " ++ e.message
  | .deadline limit => "transport call exceeded " ++ limit.text
  | .closed => "transport consumer has gone away"
  | .refused reason => "transport refused: " ++ reason

structure UpdateError where
  signal : Signal
  cause : TransportError
  deriving DecidableEq, Repr

def UpdateError.message (e : UpdateError) : String :=
  "failed to update " ++ e.signal.name ++ " transport: " ++ e.cause.message

end HealthSignal
