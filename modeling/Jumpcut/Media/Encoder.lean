namespace Jumpcut.Encoder

def pixelFormats? : String → Option (List String)
  | "libx264" =>
    some ["yuv420p", "yuvj420p", "yuv422p", "yuvj422p", "yuv444p", "yuvj444p", "nv12", "nv16", "nv21",
       "yuv420p10le", "yuv422p10le", "yuv444p10le", "nv20le", "gray", "gray10le"]
  | "libx264rgb" =>
    some ["bgr0", "bgr24", "rgb24"]
  | "h264_videotoolbox" | "h264" =>
    some ["videotoolbox_vld", "nv12", "yuv420p"]
  | "libx265" | "hevc" =>
    some ["yuv420p", "yuvj420p", "yuv422p", "yuvj422p", "yuv444p", "yuvj444p", "gbrp", "yuv420p10le",
       "yuv422p10le", "yuv444p10le", "gbrp10le", "yuv420p12le", "yuv422p12le", "yuv444p12le",
       "gbrp12le", "gray", "gray10le", "gray12le"]
  | "hevc_videotoolbox" =>
    some ["videotoolbox_vld", "nv12", "yuv420p", "bgra", "p010le"]
  | "hevc_nvenc" | "h264_nvenc" =>
    some ["yuv420p", "nv12", "p010le", "yuv444p", "p016le", "yuv444p16le", "bgr0", "rgb0", "gbrp",
       "gbrp16le", "cuda", "d3d11"]
  | "hevc_amf" | "h264_amf" =>
    some ["yuv420p", "nv12", "d3d11", "dxva2_vld"]
  | "hevc_qsv" =>
    some ["nv12", "p010le", "yuyv422", "y210le", "qsv", "bgra", "x2rgb10le"]
  | "h264_qsv" =>
    some ["nv12", "p010le", "qsv"]
  | "vp9" =>
    some ["yuv420p", "yuva420p", "yuv422p", "yuv440p", "yuv444p", "yuv420p10le", "yuv422p10le",
       "yuv440p10le", "yuv444p10le", "yuv420p12le", "yuv422p12le", "yuv440p12le", "yuv444p12le",
       "gbrp", "gbrp10le", "gbrp12le"]
  | "vp8" =>
    some ["yuv420p", "yuva420p"]
  | "prores" =>
    some ["yuv422p10le", "yuv444p10le", "yuva444p10le"]
  | "av1" =>
    some ["yuv420p", "yuv422p", "yuv444p", "gbrp", "yuv420p10le", "yuv422p10le", "yuv444p10le",
       "yuv420p12le", "yuv422p12le", "yuv444p12le", "gbrp10le", "gbrp12le", "gray", "gray10le",
       "gray12le"]
  | "mpeg4" =>
    some ["yuv420p"]
  | "mpeg2video" =>
    some ["yuv420p", "yuv422p"]
  | "mjpeg" =>
    some ["yuvj420p", "yuvj422p", "yuvj444p"]
  | _ => none

end Jumpcut.Encoder
